import Mathlib.Algebra.Ring.Nat
import Mathlib.Data.List.Basic
import RetentionJobs.Proofs.Text.Decimal
/-! Numbers written with a fixed number of digits. Texts that begin with such numbers are in the
order of the numbers. -/
namespace RetentionJobs.Text

/-- The last `width` digits of a number, with zeros in front of a shorter one. -/
def lastDigits : Nat → Nat → List Char
  | 0, _ => []
  | width + 1, n => lastDigits width (n / 10) ++ [Char.ofNat (48 + n % 10)]

@[simp] theorem length_lastDigits (width n : Nat) : (lastDigits width n).length = width := by
  induction width generalizing n with
  | zero => rfl
  | succ width ih => simp [lastDigits, ih]

theorem isDigit_of_mem_lastDigits {width n : Nat} {c : Char} (h : c ∈ lastDigits width n) :
    c.isDigit := by
  induction width generalizing n with
  | zero => simp [lastDigits] at h
  | succ width ih =>
    obtain h | h := List.mem_append.mp h
    · exact ih h
    · obtain rfl := List.mem_singleton.mp h
      exact (digitChar_spec (Nat.mod_lt n (by decide))).1

theorem digitsValue_lastDigits {width n : Nat} (h : n < 10 ^ width) :
    digitsValue (lastDigits width n) = n := by
  induction width generalizing n with
  | zero =>
    obtain rfl : n = 0 := by simpa using h
    rfl
  | succ width ih =>
    have hquotient : n / 10 < 10 ^ width := by rw [Nat.pow_succ] at h; omega
    rw [lastDigits, digitsValue_append, ih hquotient,
      (digitChar_spec (Nat.mod_lt n (by decide))).2]
    omega

theorem digitsValue_append_zeros (cs : List Char) (more : Nat) :
    digitsValue (cs ++ List.replicate more '0') = digitsValue cs * 10 ^ more := by
  induction more with
  | zero => simp
  | succ more ih =>
    rw [List.replicate_succ', ← List.append_assoc, digitsValue_append, ih, Nat.pow_succ,
      ← Nat.mul_assoc]
    rfl

theorem lastDigits_zero (width : Nat) : lastDigits width 0 = List.replicate width '0' := by
  induction width with
  | zero => rfl
  | succ width ih => simp [lastDigits, ih, List.replicate_succ']

theorem lastDigits_add (width more n : Nat) :
    lastDigits (width + more) n = lastDigits width (n / 10 ^ more) ++ lastDigits more n := by
  induction more generalizing n with
  | zero => simp [lastDigits]
  | succ more ih =>
    rw [← Nat.add_assoc, lastDigits, ih, lastDigits, Nat.div_div_eq_div_mul, ← Nat.pow_succ',
      List.append_assoc]

theorem lastDigits_div_add (width more dropped n : Nat) :
    lastDigits (width + more) (n / 10 ^ dropped) =
      lastDigits width (n / 10 ^ (dropped + more)) ++ lastDigits more (n / 10 ^ dropped) := by
  rw [lastDigits_add, Nat.div_div_eq_div_mul, Nat.pow_add]

theorem div_lt_of_lt_pow {width dropped n : Nat} (h : n < 10 ^ (width + dropped)) :
    n / 10 ^ dropped < 10 ^ width :=
  Nat.div_lt_of_lt_mul (by rwa [← Nat.pow_add, Nat.add_comm])

/-- Two texts part where the first has the smaller character. -/
def Below (xs ys : List Char) : Prop :=
  ∃ front c d xs' ys', xs = front ++ c :: xs' ∧ ys = front ++ d :: ys' ∧ c < d

namespace Below

theorem append_left {xs ys : List Char} (front : List Char) (h : Below xs ys) :
    Below (front ++ xs) (front ++ ys) := by
  obtain ⟨common, c, d, xs', ys', rfl, rfl, hlt⟩ := h
  exact ⟨front ++ common, c, d, xs', ys', by simp, by simp, hlt⟩

theorem cons {xs ys : List Char} (c : Char) (h : Below xs ys) : Below (c :: xs) (c :: ys) :=
  h.append_left [c]

theorem append_right {xs ys : List Char} (xs' ys' : List Char) (h : Below xs ys) :
    Below (xs ++ xs') (ys ++ ys') := by
  obtain ⟨common, c, d, xs'', ys'', rfl, rfl, hlt⟩ := h
  exact ⟨common, c, d, xs'' ++ xs', ys'' ++ ys', by simp, by simp, hlt⟩

theorem lt {xs ys : List Char} (h : Below xs ys) : xs < ys := by
  obtain ⟨common, c, d, xs', ys', rfl, rfl, hlt⟩ := h
  induction common with
  | nil => exact List.Lex.rel hlt
  | cons x common ih => exact List.Lex.cons ih

end Below

theorem digitChar_lt {a b : Nat} (hab : a < b) (hb : b < 10) :
    Char.ofNat (48 + a) < Char.ofNat (48 + b) := by
  have hall : ∀ b < 10, ∀ a < b, Char.ofNat (48 + a) < Char.ofNat (48 + b) := by decide
  exact hall b hb a hab

/-- Numbers of the same width are in the order of their digits. -/
theorem below_lastDigits {width m n : Nat} (h : m < n) (hn : n < 10 ^ width) :
    Below (lastDigits width m) (lastDigits width n) := by
  induction width generalizing m n with
  | zero => simp at hn; omega
  | succ width ih =>
    have hquotient : n / 10 < 10 ^ width := by rw [Nat.pow_succ] at hn; omega
    unfold lastDigits
    obtain hlt | heq : m / 10 < n / 10 ∨ m / 10 = n / 10 := by omega
    · exact (ih hlt hquotient).append_right _ _
    · rw [heq]
      exact ⟨_, _, _, [], [], rfl, rfl, digitChar_lt (by omega) (by omega)⟩

/-- A field of fixed width decides, and what follows it does if it is the same in both. -/
theorem below_field {width m n : Nat} {xs ys : List Char} (hn : n < 10 ^ width)
    (h : m < n ∨ m = n ∧ Below xs ys) :
    Below (lastDigits width m ++ xs) (lastDigits width n ++ ys) := by
  obtain hlt | ⟨rfl, hbelow⟩ := h
  · exact (below_lastDigits hlt hn).append_right xs ys
  · exact hbelow.append_left _

end RetentionJobs.Text
