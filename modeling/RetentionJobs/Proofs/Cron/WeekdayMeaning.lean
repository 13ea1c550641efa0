import Mathlib.Data.Finset.Union
import Mathlib.Order.Interval.Finset.Nat
import RetentionJobs.Cron.Schedule
import RetentionJobs.Proofs.Cron.WeekdayShift
/-! The days that weekdays stand for, counted as in a crontab or as in the grammar. Renumbering loses
none of them. A range that begins on day 7, or that ends on it and has a step, may get days that it
does not have in a crontab. -/
namespace RetentionJobs.Cron.Weekday
open RetentionJobs.Text

inductive Day where
  | sunday | monday | tuesday | wednesday | thursday | friday | saturday
  deriving DecidableEq, Repr

/-- The day that comes `n` days after a Sunday. -/
def Day.afterSunday (n : Nat) : Day :=
  match n % 7 with
  | 0 => sunday
  | 1 => monday
  | 2 => tuesday
  | 3 => wednesday
  | 4 => thursday
  | 5 => friday
  | _ => saturday

/-- The two ways to count the days of a week. Both end at 7. -/
inductive Numbering where
  | crontab | grammar
  deriving DecidableEq, Repr

namespace Numbering

/-- The number of the Sunday at the beginning of a week. -/
def sunday : Numbering → Nat
  | crontab => Field.crontabLeast .dayOfWeek
  | grammar => Field.least .dayOfWeek

def day (m : Numbering) (n : Nat) : Day := .afterSunday (n - m.sunday)

/-- Every `step`-th day from `first` to `last`. -/
def days (m : Numbering) (first last step : Nat) : Finset Day :=
  ((Finset.Icc first last).filter fun n => step ∣ n - first).image m.day

/-- The number of a day by its name. The names count Sunday as 1. -/
def number? (m : Numbering) (name : String) : Option Nat :=
  (Field.resolve .dayOfWeek name).toOption.map fun n => n - 1 + m.sunday

/-- The first and the last day of a set. -/
def bounds? (m : Numbering) : Spec → Option (Nat × Nat)
  | .unspecified | .every => some (m.sunday, 7)
  | .value n => some (n, n)
  | .range a b => some (a, b)
  | .named x y => do return (← m.number? x, ← m.number? y)

/-- The first and the last day of an item, and its step. With a step, a lone day runs to the end of
the week. -/
def span? (m : Numbering) : Item → Option (Nat × Nat × Nat)
  | .set s => (m.bounds? s).map fun (a, b) => (a, b, 1)
  | .stepped (.value n) step => some (n, 7, step)
  | .stepped s step => (m.bounds? s).map fun (a, b) => (a, b, step)
  | .name x => (m.number? x).map fun n => (n, n, 1)

def itemDays (m : Numbering) (i : Item) : Finset Day :=
  match m.span? i with
  | none => ∅
  | some (first, last, step) => m.days first last step

def listDays (m : Numbering) (items : List Item) : Finset Day := items.toFinset.biUnion m.itemDays

/-- The days of a text that is read to its end. -/
def textDays? (m : Numbering) (text : List Char) : Option (Finset Day) :=
  match Grammar.field .dayOfWeek text with
  | some (items, []) => some (m.listDays items)
  | _ => none

end Numbering

/-- A standard item of weekdays. In a crontab no step stands behind a lone day. -/
def IsCrontabItem : Item → Prop
  | .stepped (.value _) _ => False
  | i => i.IsStandard .dayOfWeek

/-- What an item comes to in a crontab once it is renumbered. A range that begins on day 7 is taken
for the whole week. If a range from another day than Sunday to day 7 has a step, all its days up to
Saturday are taken, and the step goes to the whole week. -/
def taken : Item → List Item
  | .set (.range a b) => if a = 7 then [.set .every] else [.set (.range a b)]
  | .stepped (.range a b) step =>
    if a = 7 then [.stepped .every step]
    else if a ≠ 0 ∧ b = 7 then [.set (.range a 6), .stepped .every step]
    else [.stepped (.range a b) step]
  | i => [i]

/-- The items for which other days are taken. -/
def Strays : Item → Prop
  | .set (.range a _) => a = 7
  | .stepped (.range a b) step =>
    a ≠ 0 ∧ b = 7 ∧ ¬ (a = 1 ∧ step = 1) ∧ ¬ (a = 7 ∧ step = 7)
  | _ => False

namespace Numbering
variable {m : Numbering} {a b step : Nat} {d : Day}

theorem mem_days : d ∈ m.days a b step ↔ ∃ n, (a ≤ n ∧ n ≤ b) ∧ step ∣ n - a ∧ m.day n = d := by
  simp [days, and_assoc]

theorem days_self (m : Numbering) (n step : Nat) : m.days n n step = {m.day n} := by
  ext d
  rw [mem_days, Finset.mem_singleton]
  constructor
  · rintro ⟨k, ⟨hfirst, hlast⟩, -, rfl⟩
    rw [Nat.le_antisymm hlast hfirst]
  · rintro rfl
    exact ⟨n, ⟨le_rfl, le_rfl⟩, by simp, rfl⟩

theorem day_succ (n : Nat) : grammar.day (n + 1) = crontab.day n := rfl

/-- Both ends are counted from 1 on instead of 0. -/
theorem days_succ (a b step : Nat) : grammar.days (a + 1) (b + 1) step = crontab.days a b step := by
  ext d
  simp only [mem_days]
  constructor
  · rintro ⟨n, ⟨hfirst, hlast⟩, hstep, rfl⟩
    obtain ⟨n, rfl⟩ : ∃ k, n = k + 1 := ⟨n - 1, by omega⟩
    rw [Nat.add_sub_add_right] at hstep
    exact ⟨n, ⟨by omega, by omega⟩, hstep, (day_succ n).symm⟩
  · rintro ⟨n, ⟨hfirst, hlast⟩, hstep, rfl⟩
    rw [← Nat.add_sub_add_right n 1 a] at hstep
    exact ⟨n + 1, ⟨by omega, by omega⟩, hstep, day_succ n⟩

theorem day_seven : crontab.day 7 = Day.sunday := rfl

theorem sunday_mem_week (step : Nat) : Day.sunday ∈ crontab.days 0 7 step :=
  mem_days.mpr ⟨0, by omega, Nat.dvd_zero step, rfl⟩

/-- The Sunday at the end of a crontab's week is the one at its beginning. -/
theorem days_week (step : Nat) : crontab.days 0 7 step = crontab.days 0 6 step := by
  ext d
  simp only [mem_days]
  constructor
  · rintro ⟨n, ⟨hfirst, hlast⟩, hstep, rfl⟩
    by_cases hseven : n = 7
    · exact ⟨0, by omega, Nat.dvd_zero step, by rw [hseven]; rfl⟩
    · exact ⟨n, by omega, hstep, rfl⟩
  · rintro ⟨n, ⟨hfirst, hlast⟩, hstep, rfl⟩
    exact ⟨n, by omega, hstep, rfl⟩

theorem grammar_week (step : Nat) : grammar.days 1 7 step = crontab.days 0 7 step := by
  rw [days_week, ← days_succ]

/-- A range to day 7 without a step runs to Saturday and has Sunday besides. -/
theorem days_to_sunday (h : a ≤ 7) :
    crontab.days a 7 1 = crontab.days a 6 1 ∪ {Day.sunday} := by
  ext d
  simp only [Finset.mem_union, Finset.mem_singleton, mem_days, Nat.one_dvd, true_and]
  constructor
  · rintro ⟨n, ⟨hfirst, hlast⟩, rfl⟩
    by_cases hseven : n = 7
    · exact .inr (by rw [hseven]; rfl)
    · exact .inl ⟨n, by omega, rfl⟩
  · rintro (⟨n, ⟨hfirst, hlast⟩, rfl⟩ | rfl)
    · exact ⟨n, by omega, rfl⟩
    · exact ⟨7, ⟨h, le_rfl⟩, rfl⟩

theorem days_subset_week (a step : Nat) :
    crontab.days a 7 step ⊆ crontab.days a 6 1 ∪ crontab.days 0 7 step := by
  intro d hd
  obtain ⟨n, ⟨hfirst, hlast⟩, -, rfl⟩ := mem_days.mp hd
  rw [Finset.mem_union]
  by_cases hseven : n = 7
  · rw [hseven, day_seven]
    exact .inr (sunday_mem_week step)
  · exact .inl (mem_days.mpr ⟨n, by omega, Nat.one_dvd _, rfl⟩)

theorem day_shiftDay (n : Nat) : grammar.day (shiftDay n) = crontab.day n := by
  unfold shiftDay
  split
  · rename_i hseven
    rw [hseven]
    rfl
  · exact day_succ n

/-! The days of an item by its shape. -/

@[simp] theorem sunday_crontab : crontab.sunday = 0 := rfl

@[simp] theorem sunday_grammar : grammar.sunday = 1 := rfl

@[simp] theorem itemDays_every : m.itemDays (.set .every) = m.days m.sunday 7 1 := rfl

@[simp] theorem itemDays_value (n : Nat) : m.itemDays (.set (.value n)) = {m.day n} :=
  days_self m n 1

@[simp] theorem itemDays_range : m.itemDays (.set (.range a b)) = m.days a b 1 := rfl

@[simp] theorem itemDays_stepped_every :
    m.itemDays (.stepped .every step) = m.days m.sunday 7 step := rfl

@[simp] theorem itemDays_stepped_value (n : Nat) :
    m.itemDays (.stepped (.value n) step) = m.days n 7 step := rfl

@[simp] theorem itemDays_stepped_range :
    m.itemDays (.stepped (.range a b) step) = m.days a b step := rfl

theorem number?_grammar (x : String) :
    grammar.number? x = (crontab.number? x).map (· + 1) := by
  cases h : Field.resolve .dayOfWeek x <;> simp [number?, h, Except.toOption]

theorem bounds?_named (x y : String) : grammar.bounds? (.named x y) =
    (crontab.bounds? (.named x y)).map fun (a, b) => (a + 1, b + 1) := by
  simp only [bounds?, number?_grammar]
  cases crontab.number? x <;> cases crontab.number? y <;> rfl

/-- An item means the same in both numberings if its days are 1 more in the grammar. -/
theorem itemDays_of_span? {i : Item} (h : grammar.span? i =
    (crontab.span? i).map fun (a, b, step) => (a + 1, b + 1, step)) :
    grammar.itemDays i = crontab.itemDays i := by
  unfold itemDays
  rw [h]
  cases crontab.span? i with
  | none => rfl
  | some span => exact days_succ span.1 span.2.1 span.2.2

theorem itemDays_name (x : String) : grammar.itemDays (.name x) = crontab.itemDays (.name x) := by
  apply itemDays_of_span?
  simp only [span?, number?_grammar]
  cases crontab.number? x <;> rfl

theorem itemDays_named (x y : String) :
    grammar.itemDays (.set (.named x y)) = crontab.itemDays (.set (.named x y)) := by
  apply itemDays_of_span?
  simp only [span?, bounds?_named]
  cases crontab.bounds? (.named x y) <;> rfl

theorem itemDays_stepped_named (x y : String) (step : Nat) :
    grammar.itemDays (.stepped (.named x y) step) =
      crontab.itemDays (.stepped (.named x y) step) := by
  apply itemDays_of_span?
  simp only [span?, bounds?_named]
  cases crontab.bounds? (.named x y) <;> rfl

theorem mem_listDays {items : List Item} :
    d ∈ m.listDays items ↔ ∃ i ∈ items, d ∈ m.itemDays i := by
  simp [listDays]

@[simp] theorem listDays_singleton (i : Item) : m.listDays [i] = m.itemDays i := by
  simp [listDays]

@[simp] theorem listDays_pair (i j : Item) :
    m.listDays [i, j] = m.itemDays i ∪ m.itemDays j := by
  simp [listDays]

theorem mem_listDays_flatMap {items : List Item} {f : Item → List Item} :
    d ∈ m.listDays (items.flatMap f) ↔ ∃ i ∈ items, d ∈ m.listDays (f i) := by
  simp only [mem_listDays, List.mem_flatMap]
  constructor
  · rintro ⟨j, ⟨i, hi, hj⟩, hd⟩
    exact ⟨i, hi, j, hj, hd⟩
  · rintro ⟨i, hi, j, hj, hd⟩
    exact ⟨j, ⟨i, hi, hj⟩, hd⟩

end Numbering

variable {a b step : Nat}

/-- A range is shifted by 1, but for its end on day 7. Sunday is day 1 of the grammar, whichever of
its two numbers a range begins with. -/
theorem shiftSpec_range_cases (hab : a ≤ b) (hb : b ≤ 7) :
    (a = 0 ∨ a = 7) ∧ b = 7 ∧ shiftSpec (.range a b) = [.range 1 7] ∨
    a ≠ 0 ∧ a ≠ 7 ∧ b = 7 ∧ shiftSpec (.range a b) = [.range (a + 1) 7, .value 1] ∨
    a ≠ 7 ∧ b ≠ 7 ∧ shiftSpec (.range a b) = [.range (a + 1) (b + 1)] := by
  by_cases hlast : b = 7
  · by_cases hseven : a = 7
    · simp [shiftSpec, shiftDay, hlast, hseven]
    · by_cases hzero : a = 0
      · simp [shiftSpec, shiftDay, hlast, hzero]
      · simp [shiftSpec, shiftDay, hlast, hseven, hzero]
  · have hseven : a ≠ 7 := by omega
    simp [shiftSpec, shiftDay, hlast, hseven]

open Weekday.Numbering

/-- What the grammar makes of a renumbered range. -/
theorem listDays_shift_range (hab : a ≤ b) (hb : b ≤ 7) :
    grammar.listDays (shiftItem (.set (.range a b))) =
      crontab.listDays (taken (.set (.range a b))) := by
  obtain ⟨rfl | rfl, rfl, hshift⟩ | ⟨hzero, hseven, rfl, hshift⟩ | ⟨hseven, hlast, hshift⟩ :=
    shiftSpec_range_cases hab hb
  · simp [shiftItem, hshift, taken, grammar_week]
  · simp [shiftItem, hshift, taken, grammar_week]
  · have hsunday : grammar.day 1 = Day.sunday := rfl
    simp [shiftItem, hshift, taken, hseven, hsunday, days_to_sunday hab, days_succ a 6]
  · simp [shiftItem, hshift, taken, hseven, days_succ]

theorem listDays_shift_stepped_range (hab : a ≤ b) (hb : b ≤ 7) (step : Nat) :
    grammar.listDays (shiftItem (.stepped (.range a b) step)) =
      crontab.listDays (taken (.stepped (.range a b) step)) := by
  obtain ⟨rfl | rfl, rfl, hshift⟩ | ⟨hzero, hseven, rfl, hshift⟩ | ⟨hseven, hlast, hshift⟩ :=
    shiftSpec_range_cases hab hb
  · simp [shiftItem, hshift, taken, grammar_week]
  · simp [shiftItem, hshift, taken, grammar_week]
  · simp [shiftItem, hshift, taken, hseven, hzero, grammar_week, days_succ a 6]
  · simp [shiftItem, hshift, taken, hseven, hlast, days_succ]

/-- What the grammar makes of a renumbered item. -/
theorem listDays_shiftItem {i : Item} (h : IsCrontabItem i) :
    grammar.listDays (shiftItem i) = crontab.listDays (taken i) := by
  cases i with
  | set s =>
    cases s with
    | unspecified => exact h.elim
    | every => simp [shiftItem, shiftSpec, taken, grammar_week]
    | value n => simp [shiftItem, shiftSpec, taken, day_shiftDay n]
    | range a b => exact listDays_shift_range h.2.1 h.2.2
    | named x y => simp [shiftItem, shiftSpec, taken, itemDays_named]
  | stepped s step =>
    cases s with
    | unspecified => exact h.1.elim
    | every => simp [shiftItem, shiftSpec, taken, grammar_week]
    | value n => exact h.elim
    | range a b => exact listDays_shift_stepped_range h.1.2.1 h.1.2.2 step
    | named x y => simp [shiftItem, shiftSpec, taken, itemDays_stepped_named]
  | name x => simp [shiftItem, taken, itemDays_name]

/-- An item is taken for itself, but for three kinds of ranges that end on day 7. Of these only some
stray: the week from day 1 with step 1 and day 7 with step 7 come to the same days. -/
theorem taken_cases {i : Item} (h : IsCrontabItem i) :
    taken i = [i] ∧ ¬ Strays i ∨
    i = .set (.range 7 7) ∨
    (∃ step ∈ Finset.Icc 1 7, i = .stepped (.range 7 7) step) ∨
    ∃ a ∈ Finset.Icc 1 6, ∃ step ∈ Finset.Icc 1 7, i = .stepped (.range a 7) step := by
  cases i with
  | set s =>
    cases s with
    | range a b =>
      by_cases hseven : a = 7
      · obtain rfl : b = 7 := Nat.le_antisymm h.2.2 (hseven ▸ h.2.1)
        exact .inr (.inl (by rw [hseven]))
      · exact .inl ⟨if_neg hseven, hseven⟩
    | _ => exact .inl ⟨rfl, id⟩
  | stepped s step =>
    cases s with
    | range a b =>
      obtain ⟨⟨-, hab, hb⟩, hstep⟩ := h
      have hstep : step ∈ Finset.Icc 1 7 := Finset.mem_Icc.mpr hstep
      by_cases hseven : a = 7
      · obtain rfl : b = 7 := Nat.le_antisymm hb (hseven ▸ hab)
        exact .inr (.inr (.inl ⟨step, hstep, by rw [hseven]⟩))
      · by_cases hlast : a ≠ 0 ∧ b = 7
        · have ha : a ∈ Finset.Icc 1 6 := Finset.mem_Icc.mpr (by omega)
          exact .inr (.inr (.inr ⟨a, ha, step, hstep, by rw [hlast.2]⟩))
        · refine .inl ⟨?_, fun hstrays => hlast ⟨hstrays.1, hstrays.2.1⟩⟩
          rw [taken, if_neg hseven, if_neg hlast]
    | _ => exact .inl ⟨rfl, id⟩
  | name x => exact .inl ⟨rfl, id⟩

/-- A renumbered item has all the days of the item. -/
theorem itemDays_subset_taken {i : Item} (h : IsCrontabItem i) :
    crontab.itemDays i ⊆ crontab.listDays (taken i) := by
  obtain ⟨htaken, -⟩ | rfl | ⟨step, -, rfl⟩ | ⟨a, ha, step, -, rfl⟩ := taken_cases h
  · simp [htaken]
  · simp [taken, days_self, day_seven, sunday_mem_week]
  · simp [taken, days_self, day_seven, sunday_mem_week]
  · have hrange : a ≠ 7 ∧ a ≠ 0 := by rw [Finset.mem_Icc] at ha; omega
    simpa [taken, hrange] using days_subset_week a step

/-- What is taken for a range up to day 7 is more than the range, but for `1-7/1`. -/
theorem week_eq_range_iff : ∀ a ∈ Finset.Icc 1 6, ∀ step ∈ Finset.Icc 1 7,
    (crontab.days a 6 1 ∪ crontab.days 0 7 step = crontab.days a 7 step ↔ a = 1 ∧ step = 1) := by
  decide +kernel

/-- The steps of the whole week are more than a Sunday, but for the step 7. -/
theorem week_eq_sunday_iff : ∀ step ∈ Finset.Icc 1 7,
    (crontab.days 0 7 step = {Day.sunday} ↔ step = 7) := by
  decide +kernel

/-- A renumbered item has other days besides exactly if it strays. -/
theorem strays_iff {i : Item} (h : IsCrontabItem i) :
    Strays i ↔ crontab.listDays (taken i) ≠ crontab.itemDays i := by
  obtain ⟨htaken, hnot⟩ | rfl | ⟨step, hstep, rfl⟩ | ⟨a, ha, step, hstep, rfl⟩ := taken_cases h
  · simp [htaken, hnot]
  · have hweek := week_eq_sunday_iff 1 (by decide)
    simp [Strays, taken, days_self, day_seven, hweek]
  · have hweek := week_eq_sunday_iff step hstep
    simp [Strays, taken, days_self, day_seven, hweek]
  · have hweek := week_eq_range_iff a ha step hstep
    have hrange : a ≠ 7 ∧ a ≠ 0 := by rw [Finset.mem_Icc] at ha; omega
    simp [Strays, taken, hrange, hweek]

theorem IsCrontabItem.isStandard {i : Item} (h : IsCrontabItem i) : i.IsStandard .dayOfWeek := by
  cases i with
  | stepped s step =>
    cases s with
    | value n => exact h.elim
    | _ => exact h
  | _ => exact h

/-- No item begins with a gap, so that a list of items is read from where it begins. -/
theorem isGap_head_writeItems {items : List Item} (h : ∀ i ∈ items, i.IsReadable) :
    ∀ c ∈ (writeItems items).head?, Grammar.isGap c = false := by
  cases items with
  | nil => simp [writeItems]
  | cons i items =>
    have hi : i.Spelled .dayOfWeek i.write := (h i List.mem_cons_self).spelled
    intro c hc
    rw [writeItems, List.map_cons, join_cons_more, List.head?_append_of_ne_nil _ hi.ne_nil] at hc
    exact hi.gapFree c (List.mem_of_mem_head? hc)

/-- The days of a text are those of the items that it was written for. -/
theorem textDays?_write (m : Numbering) {items : List Item} (hne : items ≠ [])
    (h : ∀ i ∈ items, i.IsReadable) : m.textDays? (writeItems items) = some (m.listDays items) := by
  rw [textDays?, Grammar.field_write .dayOfWeek hne h (isGap_head_writeItems h)]

section
variable {items : List Item} (hne : items ≠ []) (h : ∀ i ∈ items, IsCrontabItem i)
include hne h

theorem textDays?_crontab :
    crontab.textDays? (writeItems items) = some (crontab.listDays items) :=
  textDays?_write crontab hne fun i hi => (h i hi).isStandard.isReadable

theorem textDays?_renumber : grammar.textDays? (renumber (writeItems items)) =
    some (crontab.listDays (items.flatMap taken)) := by
  have hstandard : ∀ i ∈ items, i.IsStandard .dayOfWeek := fun i hi => (h i hi).isStandard
  have hshift : items.flatMap shiftItem ≠ [] := by
    obtain ⟨i, items, rfl⟩ := List.exists_cons_of_ne_nil hne
    simp [shiftItem_ne_nil]
  have hread : ∀ j ∈ items.flatMap shiftItem, j.IsReadable := by
    intro j hj
    obtain ⟨i, hi, hj⟩ := List.mem_flatMap.mp hj
    exact (shiftItem_checked (hstandard i hi) hj).1
  rw [renumber_write hne hstandard, textDays?_write grammar hshift hread]
  -- an item may become several, so the lists are compared by the items that their days come from
  congr 1
  ext d
  simp only [mem_listDays_flatMap]
  exact exists_congr fun i => and_congr_right fun hi => by rw [listDays_shiftItem (h i hi)]

end

theorem listDays_subset_taken {items : List Item} (h : ∀ i ∈ items, IsCrontabItem i) :
    crontab.listDays items ⊆ crontab.listDays (items.flatMap taken) := by
  intro d hd
  obtain ⟨i, hi, hd⟩ := mem_listDays.mp hd
  exact mem_listDays_flatMap.mpr ⟨i, hi, itemDays_subset_taken (h i hi) hd⟩

/-- Only what is taken for the straying items can be new to a list. -/
theorem taken_subset_listDays_iff {items : List Item} (h : ∀ i ∈ items, IsCrontabItem i) :
    crontab.listDays (items.flatMap taken) ⊆ crontab.listDays items ↔
      ∀ i ∈ items, Strays i → crontab.listDays (taken i) ⊆ crontab.listDays items := by
  constructor
  · intro hsubset i hi _ d hd
    exact hsubset (mem_listDays_flatMap.mpr ⟨i, hi, hd⟩)
  · intro hstrays d hd
    obtain ⟨i, hi, hd⟩ := mem_listDays_flatMap.mp hd
    by_cases hi' : Strays i
    · exact hstrays i hi hi' hd
    · have hsame := Decidable.not_not.mp (mt (strays_iff (h i hi)).mpr hi')
      exact mem_listDays.mpr ⟨i, hi, hsame ▸ hd⟩

/-- Renumbered weekdays have the days that they have in a crontab, and perhaps others: those that are
taken for the straying items. So the days are the same exactly when the others are days of the list
anyway, as they are when no item strays. A single item has the same days exactly when it does not
stray. -/
theorem renumber_same_days_iff {items : List Item} (hne : items ≠ [])
    (h : ∀ i ∈ items, IsCrontabItem i) :
    crontab.textDays? (writeItems items) = some (crontab.listDays items) ∧
    grammar.textDays? (renumber (writeItems items)) =
      some (crontab.listDays (items.flatMap taken)) ∧
    crontab.listDays items ⊆ crontab.listDays (items.flatMap taken) ∧
    (grammar.textDays? (renumber (writeItems items)) = crontab.textDays? (writeItems items) ↔
      ∀ i ∈ items, Strays i → crontab.listDays (taken i) ⊆ crontab.listDays items) ∧
    ∀ i ∈ items, grammar.textDays? (renumber i.write) = crontab.textDays? i.write ↔ ¬ Strays i := by
  have hsubset := listDays_subset_taken h
  refine ⟨textDays?_crontab hne h, textDays?_renumber hne h, hsubset, ?_, ?_⟩
  · rw [textDays?_crontab hne h, textDays?_renumber hne h, Option.some_inj,
      ← taken_subset_listDays_iff h]
    exact ⟨fun hsame => hsame.subset, fun htaken => htaken.antisymm hsubset⟩
  · intro i hi
    have hwrite : i.write = writeItems [i] := (join_singleton _ _).symm
    have hsingle : ∀ j ∈ [i], IsCrontabItem j := List.forall_mem_singleton.mpr (h i hi)
    have hi' : [i] ≠ [] := List.cons_ne_nil i []
    rw [hwrite, textDays?_crontab hi' hsingle, textDays?_renumber hi' hsingle, Option.some_inj,
      List.flatMap_singleton, listDays_singleton, strays_iff (h i hi), not_not]

/-- A range to day 7 with a step strays, but not together with all days that are taken for it. -/
theorem renumber_same_days_weekend :
    (∀ i ∈ [Item.set (.range 2 6), .stepped (.range 5 7) 2], IsCrontabItem i) ∧
    grammar.textDays? (renumber "2-6,5-7/2".toList) = crontab.textDays? "2-6,5-7/2".toList ∧
    grammar.textDays? (renumber "5-7/2".toList) ≠ crontab.textDays? "5-7/2".toList := by
  have h : ∀ i ∈ [Item.set (.range 2 6), .stepped (.range 5 7) 2], IsCrontabItem i := by
    simp [IsCrontabItem, Item.IsStandard, Spec.IsStandard, Field.crontabLeast, Field.greatest]
  have hlist : writeItems [Item.set (.range 2 6), .stepped (.range 5 7) 2] = "2-6,5-7/2".toList := by
    decide +kernel
  have hitem : (Item.stepped (.range 5 7) 2).write = "5-7/2".toList := by decide +kernel
  obtain ⟨-, -, -, hsame, hsingle⟩ := renumber_same_days_iff (List.cons_ne_nil _ _) h
  have htaken : ∀ i ∈ [Item.set (.range 2 6), .stepped (.range 5 7) 2], Strays i →
      crontab.listDays (taken i) ⊆
        crontab.listDays [Item.set (.range 2 6), .stepped (.range 5 7) 2] := by
    refine List.forall_mem_cons.mpr ⟨?_, List.forall_mem_singleton.mpr ?_⟩
    · exact fun hstrays => absurd hstrays (by simp [Strays])
    · exact fun _ => by decide +kernel
  have hother := (hsingle (.stepped (.range 5 7) 2) (by simp)).not.mpr (by simp [Strays])
  rw [hlist] at hsame
  rw [hitem] at hother
  exact ⟨h, hsame.mpr htaken, hother⟩

/-- The step of a range that ends on day 7 goes to the whole week, and a range that begins on day 7
is the whole week. The renumbered text is seen where another field is refused. -/
theorem renumber_other_days :
    crontab.textDays? "5-7/2".toList = some {.friday, .sunday} ∧
    grammar.textDays? (renumber "5-7/2".toList) =
      some {.sunday, .tuesday, .thursday, .friday, .saturday} ∧
    crontab.textDays? "7-7".toList = some {.sunday} ∧
    grammar.textDays? (renumber "7-7".toList) =
      some {.sunday, .monday, .tuesday, .wednesday, .thursday, .friday, .saturday} ∧
    grammar.textDays? (renumber "5-7/2".toList) ≠ crontab.textDays? "5-7/2".toList ∧
    grammar.textDays? (renumber "7-7".toList) ≠ crontab.textDays? "7-7".toList ∧
    Schedule.parse "60 3 * * 5-7/2" = .error (.grammar "0 60 3 * * 6-7,1/2".toList
      ⟨"60 3 * * 6-7,1/2".toList, some (.tooLarge .minute 60)⟩) := by
  decide +kernel

end RetentionJobs.Cron.Weekday
