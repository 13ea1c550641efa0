import RetentionJobs.Cron.Weekday
import RetentionJobs.Proofs.Cron.Crontab
/-! Renumbering the text of weekdays is writing the renumbered weekdays. A range that ends on day 7
becomes two items, of which the second takes the step. -/
namespace RetentionJobs.Cron
open RetentionJobs.Text

theorem Spec.slash_not_mem_write {s : Spec} (hs : s.IsReadable) : '/' ∉ s.write :=
  (hs.spelled (f := .dayOfWeek)).slash_not_mem

theorem Item.comma_not_mem_write {i : Item} (hi : i.IsReadable) : ',' ∉ i.write :=
  (hi.spelled (f := .dayOfWeek)).comma_not_mem

namespace Weekday

/-- A day from 0 to 7, counted from 1 on. -/
def shiftDay (n : Nat) : Nat := if n = 7 then 1 else n + 1

/-- A set of weekdays, counted from 1 on. -/
def shiftSpec : Spec → List Spec
  | .value n => [.value (shiftDay n)]
  | .range a b =>
    if b = 7 then if shiftDay a = 1 then [.range 1 7] else [.range (shiftDay a) 7, .value 1]
    else [.range (shiftDay a) (shiftDay b)]
  | s => [s]

/-- An item of weekdays, counted from 1 on. A step goes to the last part. -/
def shiftItem : Item → List Item
  | .set s => (shiftSpec s).map .set
  | .stepped s n =>
    (shiftSpec s).dropLast.map .set ++ ((shiftSpec s).getLast?.map (Item.stepped · n)).toList
  | .name x => [.name x]

theorem digits_of_lt {n : Nat} (h : n < 10) : digits n = [Char.ofNat (48 + n)] := by
  unfold digits
  exact if_pos h

theorem digits_eq_seven_iff {n : Nat} : digits n = ['7'] ↔ n = 7 := by
  have hseven : digits 7 = ['7'] := digits_of_lt (by decide)
  rw [← hseven, digits_injective.eq_iff]

theorem digits_eq_one_iff {n : Nat} : digits n = ['1'] ↔ n = 1 := by
  have hone : digits 1 = ['1'] := digits_of_lt (by decide)
  rw [← hone, digits_injective.eq_iff]

theorem renumberDay_of_read {day : List Char} {n : Nat} (hread : readUnsigned? day = some n)
    (h : n ≤ 7) : renumberDay day = digits (shiftDay n) := by
  have hone : digits 1 = ['1'] := digits_of_lt (by decide)
  unfold renumberDay shiftDay
  rw [hread]
  by_cases hseven : n = 7
  · simp [hseven, hone]
  · by_cases hzero : n = 0
    · simp [hzero, hone]
    · have hsix : n ≤ 6 := by omega
      simp [hseven, hzero, hsix]

/-- Text that is no day from 0 to 7 is kept. -/
theorem renumberDay_of_no_day {day : List Char} (h : ∀ n, readUnsigned? day = some n → 7 < n) :
    renumberDay day = day := by
  unfold renumberDay
  split
  · rfl
  · rename_i n hread
    have hn := h n hread
    have hsunday : ¬ (n = 0 ∨ n = 7) := by omega
    have hlate : ¬ n ≤ 6 := by omega
    rw [if_neg hsunday, if_neg hlate]

theorem renumberDay_digits {n : Nat} (h : n ≤ 7) :
    renumberDay (digits n) = digits (shiftDay n) :=
  renumberDay_of_read (readUnsigned?_digits n) h

theorem renumberDay_name {x : String} (hx : IsName x) : renumberDay x.toList = x.toList := by
  refine renumberDay_of_no_day fun n hread => ?_
  obtain ⟨c, cs, hcs⟩ := List.exists_cons_of_ne_nil hx.1
  have hc : c ∈ x.toList := by simp [hcs]
  have halpha := hx.2 c hc
  obtain rfl | hdigit := mem_of_readUnsigned? hread hc
  · simp at halpha
  · simp [isAlpha_eq_false_of_isDigit hdigit] at halpha

theorem dash_not_mem_digits (n : Nat) : '-' ∉ digits n := by
  intro hc
  simpa using isDigit_of_mem_digits hc

theorem dash_not_mem_name {x : String} (hx : IsName x) : '-' ∉ x.toList := by
  intro hc
  simpa using hx.2 '-' hc

theorem renumberDays_of_not_mem {days : List Char} (h : '-' ∉ days) :
    renumberDays days = renumberDay days := by
  rw [renumberDays, splitFirst_of_not_mem h]

theorem renumberDays_append {first : List Char} (h : '-' ∉ first) (last : List Char) :
    renumberDays (first ++ '-' :: last) = renumberRange first last := by
  rw [renumberDays, splitFirst_append h]

/-- The days of a set that a crontab can have in the weekday position. -/
theorem renumberDays_write {s : Spec} (hs : s.IsStandard .dayOfWeek) :
    renumberDays s.write = join [','] ((shiftSpec s).map Spec.write) := by
  cases s with
  | unspecified => exact hs.elim
  | every => rfl
  | value n =>
    rw [Spec.write, renumberDays_of_not_mem (dash_not_mem_digits n), renumberDay_digits hs.2]
    exact (join_singleton _ _).symm
  | range a b =>
    obtain ⟨_, hab, hb⟩ := hs
    have hb : b ≤ 7 := hb
    have hfirst := renumberDay_digits (hab.trans hb)
    have hlast := renumberDay_digits hb
    rw [Spec.write, renumberDays_append (dash_not_mem_digits a)]
    simp only [renumberRange, hfirst, hlast, digits_eq_seven_iff, digits_eq_one_iff, shiftSpec]
    have hone : digits 1 = ['1'] := digits_of_lt (by decide)
    have hseven : digits 7 = ['7'] := digits_of_lt (by decide)
    by_cases hsaturday : b = 7
    · by_cases hsunday : shiftDay a = 1
      · simp [hsaturday, hsunday, Spec.write, hone, hseven]
      · simp [hsaturday, hsunday, Spec.write, hone, hseven]
    · simp [hsaturday, Spec.write]
  | named x y =>
    obtain ⟨hx, hy⟩ := hs.isReadable
    have hseven : y.toList ≠ ['7'] := fun h => by simpa [h] using hy.2
    rw [Spec.write, renumberDays_append (dash_not_mem_name hx), renumberRange, if_neg hseven,
      renumberDay_name hx, renumberDay_name hy]
    exact (join_singleton _ _).symm

theorem join_concat_append {sep : List Char} (front : List (List Char)) (last after : List Char) :
    join sep (front ++ [last]) ++ after = join sep (front ++ [last ++ after]) := by
  cases front with
  | nil => simp
  | cons piece front =>
    rw [join_append (List.cons_ne_nil _ _) (List.cons_ne_nil _ _),
      join_append (List.cons_ne_nil _ _) (List.cons_ne_nil _ _)]
    simp

theorem shiftSpec_ne_nil (s : Spec) : shiftSpec s ≠ [] := by
  cases s with
  | range a b =>
    simp only [shiftSpec]
    split_ifs <;> exact List.cons_ne_nil _ _
  | _ => exact List.cons_ne_nil _ _

theorem shiftItem_ne_nil (i : Item) : shiftItem i ≠ [] := by
  cases i with
  | set s => simpa [shiftItem] using shiftSpec_ne_nil s
  | stepped s n =>
    obtain ⟨front, last, hshift⟩ := List.eq_nil_or_concat (shiftSpec s) |>.resolve_left
      (shiftSpec_ne_nil s)
    simp [shiftItem, hshift]
  | name x => exact List.cons_ne_nil _ _

theorem renumberItem_write {i : Item} (hi : i.IsStandard .dayOfWeek) :
    renumberItem i.write = writeItems (shiftItem i) := by
  cases i with
  | set s =>
    have hslash : '/' ∉ s.write := s.slash_not_mem_write (Spec.IsStandard.isReadable hi)
    rw [Item.write, renumberItem, splitFirst_of_not_mem hslash]
    simp only [renumberDays_write hi, writeItems, shiftItem, List.map_map]
    rfl
  | stepped s n =>
    have hslash : '/' ∉ s.write := s.slash_not_mem_write hi.1.isReadable
    rw [Item.write, renumberItem, splitFirst_append hslash]
    obtain ⟨front, last, hshift⟩ := List.eq_nil_or_concat (shiftSpec s) |>.resolve_left
      (shiftSpec_ne_nil s)
    -- the text of the step stands behind the last of the shifted sets
    simp only [renumberDays_write hi.1, writeItems, shiftItem, hshift, List.concat_eq_append]
    rw [List.map_append, List.map_singleton, join_concat_append]
    simp [Item.write, Function.comp_def]
  | name x =>
    have hx : IsName x := Item.IsStandard.isReadable hi
    have hslash : '/' ∉ x.toList := fun hc => by simpa using hx.2 '/' hc
    rw [Item.write, renumberItem, splitFirst_of_not_mem hslash]
    simp only
    rw [renumberDays_of_not_mem (dash_not_mem_name hx), renumberDay_name hx]
    exact (join_singleton _ _).symm

/-- Renumbering a field that is written is writing its shifted items. -/
theorem renumber_write {items : List Item} (hne : items ≠ [])
    (h : ∀ i ∈ items, i.IsStandard .dayOfWeek) :
    renumber (writeItems items) = writeItems (items.flatMap shiftItem) := by
  have hcomma : ∀ piece ∈ items.map Item.write, ',' ∉ piece := by
    intro piece hpiece
    obtain ⟨i, hi, rfl⟩ := List.mem_map.mp hpiece
    exact Item.comma_not_mem_write (Item.IsStandard.isReadable (h i hi))
  have hitems : items.map (fun i => renumberItem i.write) =
      items.map (fun i => join [','] ((shiftItem i).map Item.write)) :=
    List.map_congr_left fun i hi => renumberItem_write (h i hi)
  have hshift : ∀ i ∈ items, (shiftItem i).map Item.write ≠ [] := by
    intro i _
    simpa using shiftItem_ne_nil i
  calc renumber (writeItems items)
      = join [','] ((items.map Item.write).map renumberItem) := by
        rw [renumber, writeItems, cut_join (by simpa using hne) hcomma]
    _ = join [','] (items.map fun i => join [','] ((shiftItem i).map Item.write)) := by
        rw [List.map_map, ← hitems]
        rfl
    _ = join [','] (items.flatMap fun i => (shiftItem i).map Item.write) :=
        join_map_join [','] _ items hshift
    _ = writeItems (items.flatMap shiftItem) := by rw [writeItems, List.map_flatMap]

theorem shiftDay_bounds {n : Nat} (h : n ≤ 7) : 1 ≤ shiftDay n ∧ shiftDay n ≤ 7 := by
  unfold shiftDay
  split <;> omega

theorem isOrdinal_shiftDay {n : Nat} (h : n ≤ 7) : IsOrdinal (shiftDay n) :=
  (shiftDay_bounds h).2.trans (by decide)

theorem checkSpec_shiftDay {n : Nat} (h : n ≤ 7) :
    Field.checkSpec .dayOfWeek (.value (shiftDay n)) = .ok () :=
  Field.checkSpec_value_iff.mpr (shiftDay_bounds h)

/-- Shifted days are within the bounds of the grammar. -/
theorem shiftSpec_checked {s : Spec} (hs : s.IsStandard .dayOfWeek) {t : Spec}
    (ht : t ∈ shiftSpec s) : t.IsReadable ∧ Field.checkSpec .dayOfWeek t = .ok () := by
  cases s with
  | unspecified => exact hs.elim
  | every =>
    obtain rfl := List.mem_singleton.mp ht
    exact ⟨trivial, rfl⟩
  | value n =>
    obtain rfl := List.mem_singleton.mp ht
    exact ⟨isOrdinal_shiftDay hs.2, checkSpec_shiftDay hs.2⟩
  | range a b =>
    obtain ⟨_, hab, hb⟩ := hs
    have hb : b ≤ 7 := hb
    have ha : a ≤ 7 := hab.trans hb
    have hone : IsOrdinal 1 := by decide
    have hseven : IsOrdinal 7 := by decide
    simp only [shiftSpec] at ht
    split_ifs at ht with hsaturday hsunday
    · obtain rfl := List.mem_singleton.mp ht
      exact ⟨⟨hone, hseven⟩, by decide⟩
    · obtain rfl | ht := List.mem_cons.mp ht
      · exact ⟨⟨isOrdinal_shiftDay ha, hseven⟩,
          Field.checkSpec_range_iff.mpr ⟨(shiftDay_bounds ha).1, (shiftDay_bounds ha).2, le_rfl⟩⟩
      · obtain rfl := List.mem_singleton.mp ht
        exact ⟨hone, by decide⟩
    · obtain rfl := List.mem_singleton.mp ht
      have hmono : shiftDay a ≤ shiftDay b := by
        unfold shiftDay
        split <;> omega
      exact ⟨⟨isOrdinal_shiftDay ha, isOrdinal_shiftDay hb⟩,
        Field.checkSpec_range_iff.mpr ⟨(shiftDay_bounds ha).1, hmono, (shiftDay_bounds hb).2⟩⟩
  | named x y =>
    obtain rfl := List.mem_singleton.mp ht
    exact ⟨hs.isReadable, Field.checkSpec_named_iff.mpr hs⟩

theorem shiftItem_checked {i : Item} (hi : i.IsStandard .dayOfWeek) {j : Item}
    (hj : j ∈ shiftItem i) : j.IsReadable ∧ Field.checkItem .dayOfWeek j = .ok () := by
  cases i with
  | set s =>
    obtain ⟨t, ht, rfl⟩ := List.mem_map.mp hj
    exact shiftSpec_checked hi ht
  | stepped s n =>
    obtain ⟨hs, hpos, hle⟩ := hi
    obtain hj | hj := List.mem_append.mp hj
    · obtain ⟨t, ht, rfl⟩ := List.mem_map.mp hj
      exact shiftSpec_checked hs ((List.dropLast_sublist _).mem ht)
    · obtain ⟨t, ht, rfl⟩ := by simpa using hj
      obtain ⟨hread, hcheck⟩ := shiftSpec_checked hs (List.mem_of_getLast? ht)
      exact ⟨⟨hread, Field.isOrdinal hle⟩, Field.checkItem_stepped_iff.mpr ⟨⟨hpos, hle⟩, hcheck⟩⟩
  | name x =>
    obtain rfl := List.mem_singleton.mp hj
    exact ⟨hi.isReadable, Field.checkItem_name_iff.mpr hi⟩

end Weekday
end RetentionJobs.Cron
