/-! Whole numbers in decimal: the shortest form that is written, and the forms with leading zeros
and a sign that are read. -/
namespace RetentionJobs.Text

def digitsValue (cs : List Char) : Nat := cs.foldl (fun n c => n * 10 + (c.toNat - 48)) 0

/-- The decimal digits of `n`, without leading zeros. -/
def digits (n : Nat) : List Char :=
  if n < 10 then [Char.ofNat (48 + n)] else digits (n / 10) ++ [Char.ofNat (48 + n % 10)]

/-- A whole number in decimal, with a minus sign when it is negative. -/
def decimal : Int → List Char
  | .ofNat n => digits n
  | .negSucc n => '-' :: digits (n + 1)

def natText (n : Nat) : String := .ofList (digits n)

def intText (n : Int) : String := .ofList (decimal n)

/-- Reads a non-empty run of ASCII digits. -/
def readDigits? (cs : List Char) : Option Nat :=
  if cs ≠ [] ∧ cs.all Char.isDigit then some (digitsValue cs) else none

/-- Reads digits with an optional plus sign. -/
def readUnsigned? : List Char → Option Nat
  | '+' :: cs => readDigits? cs
  | cs => readDigits? cs

def readSigned? : List Char → Option Int
  | '-' :: cs => (readDigits? cs).map (fun n => -(n : Int))
  | cs => (readUnsigned? cs).map Int.ofNat

def InWord (n : Int) : Prop := -9223372036854775808 ≤ n ∧ n ≤ 9223372036854775807

instance (n : Int) : Decidable (InWord n) := inferInstanceAs (Decidable (_ ∧ _))

def readWord? (cs : List Char) : Option Int :=
  (readSigned? cs).filter (fun n => decide (InWord n))

/-- Reads an unsigned whole number that fits in 16 bits, such as a port. -/
def readPort? (cs : List Char) : Option UInt16 :=
  match readUnsigned? cs with
  | none => none
  | some n => if n < 65536 then some (UInt16.ofNat n) else none

end RetentionJobs.Text
