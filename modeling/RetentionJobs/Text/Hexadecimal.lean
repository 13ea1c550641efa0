/-! Hexadecimal digits, with letters in either case. -/
namespace RetentionJobs.Text

inductive LetterCase where
  | lower | upper
  deriving DecidableEq, Repr

def LetterCase.first : LetterCase → Char
  | lower => 'a'
  | upper => 'A'

/-- The digit of a value below 16. -/
def hexDigit (letters : LetterCase) (n : Nat) : Char :=
  Char.ofNat (if n < 10 then 48 + n else letters.first.toNat + (n - 10))

/-- The value of a digit, in either case. -/
def hexValue? (c : Char) : Option Nat :=
  if c.isDigit then some (c.toNat - 48)
  else if 'a' ≤ c ∧ c ≤ 'f' then some (c.toNat - 87)
  else if 'A' ≤ c ∧ c ≤ 'F' then some (c.toNat - 55)
  else none

theorem hexValue?_hexDigit (letters : LetterCase) {n : Nat} (h : n < 16) :
    hexValue? (hexDigit letters n) = some n := by
  have hall : ∀ n < 16, hexValue? (hexDigit letters n) = some n := by
    cases letters <;> decide
  exact hall n h

end RetentionJobs.Text
