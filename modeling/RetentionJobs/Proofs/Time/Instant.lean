import Mathlib.Data.String.Basic
import RetentionJobs.Proofs.Outcome
import RetentionJobs.Proofs.Text.FixedWidth
import RetentionJobs.Proofs.Time.Date
import RetentionJobs.Time.Instant
/-! An instant of the years 0 to 9999 is read back from its text, and an earlier instant has a
smaller text, however many digits its fraction is written with. -/
namespace RetentionJobs.Time
open RetentionJobs.Text

namespace Instant

/-- The day of an instant in universal time. -/
def date (i : Instant) : Date := Date.ofDays (i.seconds / 86400)

/-- An instant of the years 0 to 9999 that is no leap second. -/
def IsOrdinary (i : Instant) : Prop :=
  0 ≤ i.date.year ∧ i.date.year ≤ 9999 ∧ i.nanos < 1000000000

instance (i : Instant) : Decidable i.IsOrdinary := inferInstanceAs (Decidable (_ ∧ _))

def Before (i j : Instant) : Prop :=
  i.seconds < j.seconds ∨ i.seconds = j.seconds ∧ i.nanos < j.nanos

instance (i j : Instant) : Decidable (i.Before j) := inferInstanceAs (Decidable (_ ∨ _))

/-! ### What is written -/

theorem padded_eq_lastDigits {width n : Nat} (hwidth : 0 < width) (h : n < 10 ^ width) :
    padded width n = lastDigits width n := by
  obtain ⟨width, rfl⟩ : ∃ w, width = w + 1 := ⟨width - 1, by omega⟩
  clear hwidth
  induction width generalizing n with
  | zero =>
    have hten : n < 10 := by simpa using h
    rw [padded, digits, if_pos hten]
    simp [lastDigits, Nat.mod_eq_of_lt hten]
  | succ width ih =>
    rw [padded, digits]
    split
    · rename_i hten
      rw [lastDigits, Nat.div_eq_of_lt hten, lastDigits_zero, Nat.mod_eq_of_lt hten]
      simp
    · have hquotient : n / 10 < 10 ^ (width + 1) := by rw [Nat.pow_succ] at h; omega
      rw [lastDigits, ← ih hquotient, padded]
      simp

/-- A fraction is written with the digits that are left when zeros at its end are dropped by
threes. -/
theorem renderFraction_cases {n : Nat} (h : n < 1000000000) :
    (n = 0 ∧ renderFraction n = []) ∨
      ∃ width dropped, width + dropped = 9 ∧ 0 < width ∧ n % 10 ^ dropped = 0 ∧ n ≠ 0 ∧
        renderFraction n = '.' :: lastDigits width (n / 10 ^ dropped) := by
  unfold renderFraction
  split
  · rename_i hzero
    exact .inl ⟨hzero, rfl⟩
  · rename_i hzero
    right
    split
    · rename_i hmod
      exact ⟨3, 6, rfl, by decide, hmod, hzero,
        congrArg _ (padded_eq_lastDigits (by decide) (by omega))⟩
    · split
      · rename_i hmod
        exact ⟨6, 3, rfl, by decide, hmod, hzero,
          congrArg _ (padded_eq_lastDigits (by decide) (by omega))⟩
      · refine ⟨9, 0, rfl, by decide, by omega, hzero, ?_⟩
        rw [padded_eq_lastDigits (by decide) (by omega), Nat.pow_zero, Nat.div_one]

theorem day_le {d : Date} (h : d.isValid) : d.day ≤ 31 := by
  obtain ⟨_, hmonth, _, hday⟩ := Date.isValid_iff.mp h
  have hmax : ∀ leap : Bool, ∀ k < 13, (monthLengths leap).getD (k - 1) 0 ≤ 31 := by decide
  exact hday.trans (hmax (isLeapYear d.year) d.month (by omega))

theorem lt_of_isValid {d : Date} (h : d.isValid) : d.month < 10 ^ 2 ∧ d.day < 10 ^ 2 := by
  obtain ⟨_, hmonth, _, _⟩ := Date.isValid_iff.mp h
  have hday := day_le h
  omega

/-- The second of the day. -/
def second (i : Instant) : Nat := (i.seconds % 86400).toNat

theorem second_lt (i : Instant) : i.second < 86400 := by
  unfold second
  omega

theorem isValid_date (i : Instant) : i.date.isValid := (Date.ofDays_spec _).1

theorem toDays_date (i : Instant) : i.date.toDays = i.seconds / 86400 := (Date.ofDays_spec _).2

theorem padded_two {n : Nat} (h : n < 10 ^ 2) : padded 2 n = lastDigits 2 n :=
  padded_eq_lastDigits (by decide) h

/-- The text of an ordinary instant: six numbers of fixed width, and the fraction. -/
theorem toList_render {i : Instant} (h : i.IsOrdinary) :
    i.render.toList =
      lastDigits 4 i.date.year.toNat ++ ('-' :: (lastDigits 2 i.date.month ++
        ('-' :: (lastDigits 2 i.date.day ++ ('T' :: (lastDigits 2 (i.second / 3600) ++
          (':' :: (lastDigits 2 (i.second / 60 % 60) ++ (':' :: (lastDigits 2 (i.second % 60) ++
            (renderFraction i.nanos ++ ['+', '0', '0', ':', '0', '0']))))))))))) := by
  obtain ⟨hyear, hyear', hnanos⟩ := h
  obtain ⟨hmonth, hday⟩ := lt_of_isValid i.isValid_date
  have hsecond := i.second_lt
  have hwritten : i.render.toList =
      renderYear i.date.year ++ '-' :: padded 2 i.date.month ++ '-' :: padded 2 i.date.day ++
        'T' :: padded 2 (i.second / 3600) ++ ':' :: padded 2 (i.second / 60 % 60) ++
        ':' :: padded 2 (i.second % 60 + i.nanos / 1000000000) ++
        renderFraction (i.nanos % 1000000000) ++ ['+', '0', '0', ':', '0', '0'] :=
    String.toList_ofList
  rw [hwritten, renderYear, if_pos ⟨hyear, hyear'⟩,
    padded_eq_lastDigits (by decide) (by omega : i.date.year.toNat < 10 ^ 4), padded_two hmonth,
    padded_two hday, Nat.div_eq_of_lt hnanos, Nat.mod_eq_of_lt hnanos, Nat.add_zero,
    padded_two (by omega), padded_two (by omega), padded_two (by omega)]
  simp only [List.append_assoc, List.cons_append]

/-! ### The order -/

theorem plus_lt_of_isDigit {c : Char} (h : c.isDigit) : '+' < c := by
  obtain ⟨hle, _⟩ := Char.isDigit_iff_toNat.mp h
  exact Nat.lt_of_lt_of_le (by decide) hle

/-- A later fraction that is written with as many digits, or with more. -/
theorem below_of_longer {m n width more dropped : Nat} (h : m < n)
    (hn : n < 10 ^ (width + more + dropped)) (hm : m % 10 ^ (dropped + more) = 0)
    (hn0 : n % 10 ^ dropped = 0) (zone : List Char) :
    Below (lastDigits width (m / 10 ^ (dropped + more)) ++ '+' :: zone)
      (lastDigits (width + more) (n / 10 ^ dropped) ++ '+' :: zone) := by
  rw [lastDigits_div_add, List.append_assoc]
  refine below_field (div_lt_of_lt_pow (by rwa [Nat.add_comm dropped, ← Nat.add_assoc])) ?_
  obtain hlt | heq := Nat.lt_or_eq_of_le (Nat.div_le_div_right (c := 10 ^ (dropped + more)) h.le)
  · exact .inl hlt
  refine .inr ⟨heq, ?_⟩
  -- the shorter fraction is over, and the longer one goes on with a digit
  cases hdigits : lastDigits more (n / 10 ^ dropped) with
  | nil =>
    obtain rfl : more = 0 := by simpa using congrArg List.length hdigits
    rw [Nat.add_zero] at hm heq
    have hm := Nat.div_add_mod m (10 ^ dropped)
    have hn := Nat.div_add_mod n (10 ^ dropped)
    rw [heq] at hm
    omega
  | cons c digits =>
    have hc : c.isDigit := isDigit_of_mem_lastDigits (hdigits ▸ List.mem_cons_self)
    exact ⟨[], '+', c, _, _, rfl, rfl, plus_lt_of_isDigit hc⟩

/-- A later fraction that is written with fewer digits. -/
theorem below_of_shorter {m n width more dropped : Nat} (h : m < n)
    (hn : n < 10 ^ (width + (dropped + more))) (hn0 : n % 10 ^ (dropped + more) = 0)
    (zone : List Char) :
    Below (lastDigits (width + more) (m / 10 ^ dropped) ++ '+' :: zone)
      (lastDigits width (n / 10 ^ (dropped + more)) ++ '+' :: zone) := by
  rw [lastDigits_div_add, List.append_assoc]
  refine below_field (div_lt_of_lt_pow hn) (.inl ?_)
  by_contra hle
  have heq := Nat.le_antisymm (Nat.div_le_div_right h.le) (Nat.le_of_not_lt hle)
  have hm := Nat.div_add_mod m (10 ^ (dropped + more))
  have hn := Nat.div_add_mod n (10 ^ (dropped + more))
  rw [heq] at hm
  omega

theorem below_renderFraction {m n : Nat} (h : m < n) (hn : n < 1000000000) (zone : List Char) :
    Below (renderFraction m ++ '+' :: zone) (renderFraction n ++ '+' :: zone) := by
  obtain ⟨rfl, _⟩ | ⟨w, k, hwk, _, hk, _, hwritten⟩ := renderFraction_cases hn
  · omega
  obtain ⟨rfl, hempty⟩ | ⟨w', k', hwk', _, hk', _, hwritten'⟩ :=
    renderFraction_cases (Nat.lt_trans h hn)
  · -- no fraction: the zone's sign comes before the point
    rw [hempty, hwritten]
    exact ⟨[], '+', '.', _, _, rfl, rfl, by decide⟩
  have hnine : n < 10 ^ (w + k) := by rwa [hwk]
  rw [hwritten, hwritten', List.cons_append, List.cons_append]
  refine Below.cons '.' ?_
  obtain hle | hle := Nat.le_total w' w
  · obtain ⟨more, rfl⟩ := Nat.exists_eq_add_of_le hle
    obtain rfl : k' = k + more := by omega
    exact below_of_longer h hnine hk' hk zone
  · obtain ⟨more, rfl⟩ := Nat.exists_eq_add_of_le hle
    obtain rfl : k = k' + more := by omega
    exact below_of_shorter h hnine hk zone

/-- An earlier instant lies on an earlier day, or earlier on the same day. -/
theorem before_cases {i j : Instant} (h : i.Before j) :
    i.date.Before j.date ∨ i.date = j.date ∧
      (i.second < j.second ∨ i.second = j.second ∧ i.nanos < j.nanos) := by
  obtain hday | hday : i.seconds / 86400 < j.seconds / 86400 ∨
      i.seconds / 86400 = j.seconds / 86400 := by
    obtain h | ⟨h, _⟩ := h <;> omega
  · exact .inl (Date.ofDays_before hday)
  · refine .inr ⟨congrArg Date.ofDays hday, ?_⟩
    unfold second
    obtain h | ⟨h, hnanos⟩ := h
    · omega
    · exact .inr ⟨by rw [h], hnanos⟩

/-- The clocks of two seconds of a day. -/
theorem below_clock {s t : Nat} (h : s < t) (ht : t < 86400) (xs ys : List Char) :
    Below
      (lastDigits 2 (s / 3600) ++
        (':' :: (lastDigits 2 (s / 60 % 60) ++ (':' :: (lastDigits 2 (s % 60) ++ xs)))))
      (lastDigits 2 (t / 3600) ++
        (':' :: (lastDigits 2 (t / 60 % 60) ++ (':' :: (lastDigits 2 (t % 60) ++ ys))))) := by
  have hhours : t / 3600 < 10 ^ 2 := by omega
  have hminutes : t / 60 % 60 < 10 ^ 2 := by omega
  have hseconds : t % 60 < 10 ^ 2 := by omega
  obtain hhour | ⟨hhour, hminute | ⟨hminute, hsecond⟩⟩ :
      s / 3600 < t / 3600 ∨ s / 3600 = t / 3600 ∧
        (s / 60 % 60 < t / 60 % 60 ∨ s / 60 % 60 = t / 60 % 60 ∧ s % 60 < t % 60) := by
    omega
  · exact below_field hhours (.inl hhour)
  · refine below_field hhours (.inr ⟨hhour, Below.cons ':' ?_⟩)
    exact below_field hminutes (.inl hminute)
  · refine below_field hhours (.inr ⟨hhour, Below.cons ':' ?_⟩)
    refine below_field hminutes (.inr ⟨hminute, Below.cons ':' ?_⟩)
    exact below_field hseconds (.inl hsecond)

/-- An earlier instant has a smaller text. -/
theorem render_lt_render {i j : Instant} (hi : i.IsOrdinary) (hj : j.IsOrdinary)
    (h : i.Before j) : i.render < j.render := by
  refine String.lt_iff_toList_lt.mpr (Below.lt ?_)
  rw [toList_render hi, toList_render hj]
  obtain ⟨hyear, hyear', _⟩ := hi
  obtain ⟨_, hyear'', hnanos⟩ := hj
  have hyears : j.date.year.toNat < 10 ^ 4 := by omega
  obtain ⟨hmonths, hdays⟩ := lt_of_isValid j.isValid_date
  obtain (hlt | ⟨heq, hlt | ⟨heq', hlt⟩⟩) | ⟨hdate, hclock⟩ := before_cases h
  · exact below_field hyears (.inl (by omega))
  · refine below_field hyears (.inr ⟨by rw [heq], Below.cons '-' ?_⟩)
    exact below_field hmonths (.inl hlt)
  · refine below_field hyears (.inr ⟨by rw [heq], Below.cons '-' ?_⟩)
    refine below_field hmonths (.inr ⟨heq', Below.cons '-' ?_⟩)
    exact below_field hdays (.inl hlt)
  · rw [hdate]
    refine Below.append_left _ (Below.cons '-' (Below.append_left _ (Below.cons '-' ?_)))
    refine Below.append_left _ (Below.cons 'T' ?_)
    obtain hsecond | ⟨hsecond, hfraction⟩ := hclock
    · exact below_clock hsecond j.second_lt _ _
    · rw [hsecond]
      refine Below.append_left _ (Below.cons ':' (Below.append_left _ (Below.cons ':' ?_)))
      exact Below.append_left _ (below_renderFraction hfraction hnanos _)

/-- The texts of instants are in the order of the instants. -/
theorem render_le_render_iff {i j : Instant} (hi : i.IsOrdinary) (hj : j.IsOrdinary) :
    i.render ≤ j.render ↔ ¬ j.Before i := by
  constructor
  · intro hle hbefore
    exact String.not_lt.mpr hle (render_lt_render hj hi hbefore)
  · intro h
    by_cases hbefore : i.Before j
    · exact (render_lt_render hi hj hbefore).le
    · obtain rfl : i = j := by
        cases i
        cases j
        simp only [Before, Instant.mk.injEq] at h hbefore ⊢
        omega
      exact le_rfl

/-! ### What is read -/

theorem length_le_byteSize (cs : List Char) : cs.length ≤ byteSize cs := by
  induction cs with
  | nil => exact Nat.le_refl 0
  | cons c cs ih =>
    have hpos := Char.utf8Size_pos c
    simp only [byteSize, List.foldr_cons, List.length_cons] at ih ⊢
    omega

theorem number_lastDigits {width n : Nat} (h : n < 10 ^ width) (rest : List Char) :
    number width (lastDigits width n ++ rest) = .ok (n, rest) := by
  have hsize := length_le_byteSize (lastDigits width n ++ rest)
  rw [List.length_append, length_lastDigits] at hsize
  have hall : (lastDigits width n).all Char.isDigit :=
    List.all_eq_true.mpr (fun _ hc => isDigit_of_mem_lastDigits hc)
  rw [number, if_neg (by omega), List.take_left' (length_lastDigits width n),
    List.drop_left' (length_lastDigits width n)]
  simp [hall, digitsValue_lastDigits h]

theorem bounded_lastDigits {least greatest n : Nat} (hleast : least ≤ n) (hgreatest : n ≤ greatest)
    (hwidth : n < 10 ^ 2) (rest : List Char) :
    bounded least greatest (lastDigits 2 n ++ rest) = .ok (n, rest) := by
  rw [bounded, number_lastDigits hwidth]
  simp [hleast, hgreatest]

theorem fraction_renderFraction {n : Nat} (h : n < 1000000000) (zone : List Char) :
    fraction (renderFraction n ++ '+' :: zone) = .ok (n, '+' :: zone) := by
  obtain ⟨rfl, hempty⟩ | ⟨width, dropped, hsum, hpos, hmod, _, hwritten⟩ := renderFraction_cases h
  · rw [hempty]
    rfl
  have hlt : n / 10 ^ dropped < 10 ^ width := div_lt_of_lt_pow (by rwa [hsum])
  have hdigit : ∀ c ∈ lastDigits width (n / 10 ^ dropped), c.isDigit :=
    fun _ => isDigit_of_mem_lastDigits
  have hne : lastDigits width (n / 10 ^ dropped) ≠ [] :=
    List.ne_nil_of_length_pos (by rwa [length_lastDigits])
  have htake : (lastDigits width (n / 10 ^ dropped)).take 9 = lastDigits width (n / 10 ^ dropped) :=
    List.take_of_length_le (by rw [length_lastDigits]; omega)
  have hvalue : n / 10 ^ dropped * 10 ^ dropped = n :=
    Nat.div_mul_cancel (Nat.dvd_of_mod_eq_zero hmod)
  rw [hwritten, List.cons_append]
  have hfront : (lastDigits width (n / 10 ^ dropped) ++ '+' :: zone).takeWhile Char.isDigit =
      lastDigits width (n / 10 ^ dropped) := by
    rw [List.takeWhile_append_of_pos hdigit, List.takeWhile_cons_of_neg (by decide),
      List.append_nil]
  have hrest : (lastDigits width (n / 10 ^ dropped) ++ '+' :: zone).dropWhile Char.isDigit =
      '+' :: zone := by
    rw [List.dropWhile_append_of_pos hdigit, List.dropWhile_cons_of_neg (by decide)]
  unfold fraction
  simp only [hfront, hrest]
  rw [htake, digitsValue_append_zeros, length_lastDigits, digitsValue_lastDigits hlt,
    show 9 - width = dropped by omega, hvalue]

theorem read_render {i : Instant} (h : i.IsOrdinary) : read i.render = .ok i := by
  obtain ⟨hyear, hyear', hnanos⟩ := h
  obtain ⟨hmonths, hdays⟩ := lt_of_isValid i.isValid_date
  obtain ⟨hmonth, hmonth', hday, _⟩ := Date.isValid_iff.mp i.isValid_date
  have hsecond := i.second_lt
  unfold read
  rw [toList_render ⟨hyear, hyear', hnanos⟩, number_lastDigits (by omega)]
  simp only [Outcome.ok_bind, expect, beq_self_eq_true, if_true,
    bounded_lastDigits hmonth hmonth' hmonths]
  rw [bounded_lastDigits hday (day_le i.isValid_date) hdays]
  simp only [Outcome.ok_bind, beq_self_eq_true, if_true, Bool.true_or]
  rw [bounded_lastDigits (by omega) (by omega) (by omega)]
  simp only [Outcome.ok_bind, beq_self_eq_true, if_true]
  rw [bounded_lastDigits (by omega) (by omega) (by omega)]
  simp only [Outcome.ok_bind, beq_self_eq_true, if_true]
  rw [bounded_lastDigits (by omega) (by omega) (by omega)]
  simp only [Outcome.ok_bind]
  have hzone : offset ['+', '0', '0', ':', '0', '0'] = .ok (0, []) := by decide
  have hdate : (⟨i.date.year.toNat, i.date.month, i.date.day⟩ : Date) = i.date := by
    rw [Int.toNat_of_nonneg hyear]
  have hleap : ¬ i.second % 60 = 60 := by omega
  have hseconds : i.date.toDays * 86400 +
      (((i.second / 3600 * 60 + i.second / 60 % 60) * 60 + i.second % 60 : Nat) : Int) =
        i.seconds := by
    have hday := i.toDays_date
    unfold second at *
    omega
  rw [fraction_renderFraction hnanos]
  simp only [Outcome.ok_bind, hzone, hdate, i.isValid_date, hleap, ne_eq, not_true_eq_false,
    if_false, Bool.not_true, Bool.false_eq_true, Nat.sub_zero, Int.sub_zero, Nat.zero_mul,
    Nat.add_zero, hseconds]
  rfl

end Instant
end RetentionJobs.Time
