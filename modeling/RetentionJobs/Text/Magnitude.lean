import RetentionJobs.Text.Decimal
/-! The size of a decimal number against the greatest double. -/
namespace RetentionJobs.Text

/-- The number from which on all round past the greatest double: halfway between it and the next
power of two. -/
def doubleLimit : Nat := Nat.shiftLeft (Nat.shiftLeft 1 54 - 1) 970

/-- Whether `m` times ten to the power `e` is past every double. Far away from the limit the count
of the digits tells. -/
def isPastDoubles (m : Nat) (e : Int) : Bool :=
  let top : Int := (digits m).length + e
  if m = 0 ∨ top < 309 then false
  else if 309 < top then true
  else if 0 ≤ e then doubleLimit ≤ m * Nat.pow 10 e.toNat
  else doubleLimit * Nat.pow 10 (-e).toNat ≤ m

end RetentionJobs.Text
