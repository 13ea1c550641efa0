/-! Dates of the Gregorian calendar, carried on to all years, and their count in days. -/
namespace RetentionJobs.Time

def isLeapYear (y : Int) : Bool := y % 4 == 0 && (y % 100 != 0 || y % 400 == 0)

/-- The days from the first day of year 0 to the first day of year `y`. -/
def daysBeforeYear (y : Int) : Int := 365 * y + (y + 3) / 4 - (y + 99) / 100 + (y + 399) / 400

theorem daysBeforeYear_succ (y : Int) :
    daysBeforeYear (y + 1) = daysBeforeYear y + (if isLeapYear y then 366 else 365) := by
  have h : isLeapYear y = true ↔ y % 4 = 0 ∧ (y % 100 ≠ 0 ∨ y % 400 = 0) := by
    simp [isLeapYear]
  split <;> rename_i hl <;> rw [h] at hl <;> simp only [daysBeforeYear] <;> omega

def monthLengths (leap : Bool) : List Nat :=
  [31, if leap then 29 else 28, 31, 30, 31, 30, 31, 31, 30, 31, 30, 31]

def daysInMonth (y : Int) (m : Nat) : Nat := (monthLengths (isLeapYear y)).getD (m - 1) 0

structure Date where
  year : Int
  month : Nat
  day : Nat
  deriving DecidableEq, Repr

namespace Date

/-- A month from 1 to 12, and a day that it has. -/
def isValid (d : Date) : Bool :=
  1 ≤ d.month && d.month ≤ 12 && 1 ≤ d.day && d.day ≤ daysInMonth d.year d.month

def daysBeforeMonth (year : Int) (month : Nat) : Nat :=
  ((monthLengths (isLeapYear year)).take (month - 1)).foldl (fun n days => n + days) 0

/-- The days from the first day of year 0. -/
def toDays (d : Date) : Int :=
  daysBeforeYear d.year + daysBeforeMonth d.year d.month + (d.day - 1)

/-- The year that a day lies in: a guess from the mean length of a year is off by at most one. -/
def yearOfDays (n : Int) : Int :=
  let guess := n * 400 / 146097
  if n < daysBeforeYear guess then guess - 1
  else if daysBeforeYear (guess + 1) ≤ n then guess + 1
  else guess

/-- The month and the day of a day of the year that counts from 0, among the months from `month`
on. -/
def monthAndDay (month : Nat) : List Nat → Nat → Nat × Nat
  | [], rest => (month, rest + 1)
  | length :: lengths, rest =>
    if rest < length then (month, rest + 1) else monthAndDay (month + 1) lengths (rest - length)

def ofDays (n : Int) : Date :=
  let year := yearOfDays n
  let (month, day) := monthAndDay 1 (monthLengths (isLeapYear year)) (n - daysBeforeYear year).toNat
  ⟨year, month, day⟩

theorem yearOfDays_bounds (n : Int) :
    daysBeforeYear (yearOfDays n) ≤ n ∧ n < daysBeforeYear (yearOfDays n + 1) := by
  simp only [yearOfDays]
  split
  · rename_i h
    refine ⟨?_, by rwa [Int.sub_add_cancel]⟩
    simp only [daysBeforeYear] at *; omega
  · split
    · rename_i h
      refine ⟨h, ?_⟩
      simp only [daysBeforeYear] at *; omega
    · omega

end Date
end RetentionJobs.Time
