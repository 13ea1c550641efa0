import Mathlib.Algebra.Ring.Nat
import Mathlib.Order.Monotone.Basic
import RetentionJobs.Time.Date
/-! The count of days is a bijection between the valid dates and the whole numbers, and it keeps
the order. -/
namespace RetentionJobs.Time

theorem daysBeforeYear_mono {y z : Int} (h : y ≤ z) : daysBeforeYear y ≤ daysBeforeYear z := by
  refine monotone_int_of_le_succ (fun y => ?_) h
  rw [daysBeforeYear_succ]
  split <;> omega

theorem sum_monthLengths (leap : Bool) : (monthLengths leap).sum = if leap then 366 else 365 := by
  cases leap <;> rfl

namespace Date

theorem daysBeforeMonth_eq_sum (year : Int) (month : Nat) :
    daysBeforeMonth year month = ((monthLengths (isLeapYear year)).take (month - 1)).sum :=
  List.sum_eq_foldl.symm

theorem isValid_iff {d : Date} :
    d.isValid ↔ 1 ≤ d.month ∧ d.month ≤ 12 ∧ 1 ≤ d.day ∧ d.day ≤ daysInMonth d.year d.month := by
  simp [isValid, and_assoc]

/-- A day of the year lies in the month that the lengths of the months before it add up to. -/
theorem monthAndDay_spec {month rest : Nat} {lengths : List Nat} (h : rest < lengths.sum) :
    ∃ k < lengths.length, (monthAndDay month lengths rest).1 = month + k ∧
      1 ≤ (monthAndDay month lengths rest).2 ∧
      (monthAndDay month lengths rest).2 ≤ lengths.getD k 0 ∧
      (lengths.take k).sum + (monthAndDay month lengths rest).2 = rest + 1 := by
  induction lengths generalizing month rest with
  | nil => simp at h
  | cons length lengths ih =>
    unfold monthAndDay
    split
    · exact ⟨0, by simp, by simp, by simp, by simpa, by simp⟩
    · rename_i hrest
      have hsum : rest - length < lengths.sum := by simp at h; omega
      obtain ⟨k, hk, hmonth, hpos, hle, hday⟩ := @ih (month + 1) (rest - length) hsum
      refine ⟨k + 1, by simpa, by omega, hpos, by simpa, ?_⟩
      simp only [List.take_succ_cons, List.sum_cons]
      omega

/-- The month and the day that `ofDays` gives lie in their bounds, and count what is left of the
days when those before the year are taken away. -/
theorem ofDays_spec (n : Int) :
    (ofDays n).isValid ∧ (ofDays n).toDays = n := by
  obtain ⟨hle, hlt⟩ := yearOfDays_bounds n
  have hsum : (n - daysBeforeYear (yearOfDays n)).toNat <
      (monthLengths (isLeapYear (yearOfDays n))).sum := by
    rw [daysBeforeYear_succ] at hlt
    rw [sum_monthLengths]
    split at hlt <;> simp_all <;> omega
  obtain ⟨k, hk, hmonth, hpos, hday, hcount⟩ := @monthAndDay_spec 1 _ _ hsum
  have hk : k < 12 := hk
  constructor
  · refine isValid_iff.mpr ⟨?_, ?_, hpos, ?_⟩
    · simp only [ofDays, hmonth]; omega
    · simp only [ofDays, hmonth]; omega
    · simpa only [ofDays, daysInMonth, hmonth, Nat.add_sub_cancel_left] using hday
  · simp only [toDays, daysBeforeMonth_eq_sum, ofDays, hmonth, Nat.add_sub_cancel_left]
    omega

/-- The order of the calendar. -/
def Before (d e : Date) : Prop :=
  d.year < e.year ∨ d.year = e.year ∧ (d.month < e.month ∨ d.month = e.month ∧ d.day < e.day)

theorem before_or_eq_or_before (d e : Date) : d.Before e ∨ d = e ∨ e.Before d := by
  obtain ⟨y, m, k⟩ := d
  obtain ⟨y', m', k'⟩ := e
  simp only [Before, mk.injEq]
  omega

/-- A month ends where a later one begins, or before. -/
theorem daysBeforeMonth_add_le {year : Int} {m m' : Nat} (hm : 1 ≤ m) (hlt : m < m')
    (hm' : m' ≤ 13) :
    daysBeforeMonth year m + daysInMonth year m ≤ daysBeforeMonth year m' := by
  have hall : ∀ leap : Bool, ∀ m' < 14, ∀ m < m', 1 ≤ m →
      ((monthLengths leap).take (m - 1)).sum + (monthLengths leap).getD (m - 1) 0 ≤
        ((monthLengths leap).take (m' - 1)).sum := by decide
  rw [daysBeforeMonth_eq_sum, daysBeforeMonth_eq_sum]
  exact hall _ m' (by omega) m hlt hm

/-- A valid date lies in its year. -/
theorem toDays_bounds {d : Date} (h : d.isValid) :
    daysBeforeYear d.year ≤ d.toDays ∧ d.toDays < daysBeforeYear (d.year + 1) := by
  obtain ⟨hm, hm', hpos, hday⟩ := isValid_iff.mp h
  have hend := @daysBeforeMonth_add_le d.year d.month 13 hm (by omega) (by omega)
  have hyear : daysBeforeMonth d.year 13 = if isLeapYear d.year then 366 else 365 := by
    rw [daysBeforeMonth_eq_sum, ← sum_monthLengths]
    cases isLeapYear d.year <;> rfl
  rw [daysBeforeYear_succ]
  unfold toDays
  split at hyear <;> simp_all <;> omega

theorem toDays_lt_toDays {d e : Date} (hd : d.isValid) (he : e.isValid) (h : d.Before e) :
    d.toDays < e.toDays := by
  obtain hyear | ⟨hyear, hmonth | ⟨hmonth, hday⟩⟩ := h
  · have hmono : daysBeforeYear (d.year + 1) ≤ daysBeforeYear e.year :=
      daysBeforeYear_mono (by omega)
    have := toDays_bounds hd
    have := toDays_bounds he
    omega
  · obtain ⟨hm, _, hpos, hday⟩ := isValid_iff.mp hd
    obtain ⟨_, hm', hpos', _⟩ := isValid_iff.mp he
    have hend := @daysBeforeMonth_add_le d.year d.month e.month hm hmonth (by omega)
    simp only [toDays, ← hyear]
    omega
  · obtain ⟨_, _, hpos, _⟩ := isValid_iff.mp hd
    simp only [toDays, ← hyear, ← hmonth]
    omega

theorem ofDays_before {m n : Int} (h : m < n) : (ofDays m).Before (ofDays n) := by
  obtain hbefore | heq | hbefore := before_or_eq_or_before (ofDays m) (ofDays n)
  · exact hbefore
  · have hdays := congrArg toDays heq
    rw [(ofDays_spec m).2, (ofDays_spec n).2] at hdays
    omega
  · have hdays := toDays_lt_toDays (ofDays_spec n).1 (ofDays_spec m).1 hbefore
    rw [(ofDays_spec m).2, (ofDays_spec n).2] at hdays
    omega

end Date
end RetentionJobs.Time
