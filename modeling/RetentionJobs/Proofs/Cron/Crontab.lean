import RetentionJobs.Proofs.Cron.LineReading
import RetentionJobs.Proofs.Cron.Written
/-! The fields of a standard crontab line. Apart from the weekday, which a crontab counts from 0 or
7 for Sunday, they are within the bounds of the grammar as they stand. -/
namespace RetentionJobs.Cron
open RetentionJobs.Text RetentionJobs.Outcome

/-- The least value of a position in a crontab. -/
def Field.crontabLeast : Field → Nat
  | .dayOfWeek => 0
  | f => f.least

/-- All values, one, a range of numbers that does not run backwards, or such a range of known
names. -/
def Spec.IsStandard (f : Field) : Spec → Prop
  | .unspecified => False
  | .every => True
  | .value n => f.crontabLeast ≤ n ∧ n ≤ f.greatest
  | .range a b => f.crontabLeast ≤ a ∧ a ≤ b ∧ b ≤ f.greatest
  | .named x y => ∃ a b, f.resolve x = .ok a ∧ f.resolve y = .ok b ∧ a ≤ b

/-- A set of values, perhaps with a step up to the greatest value, or a known name. -/
def Item.IsStandard (f : Field) : Item → Prop
  | .set s => s.IsStandard f
  | .stepped s n => s.IsStandard f ∧ 1 ≤ n ∧ n ≤ f.greatest
  | .name x => ∃ n, f.resolve x = .ok n

/-- A known name is a name for the grammar. -/
theorem Field.isName_of_resolve {f : Field} {x : String} {n : Nat} (h : f.resolve x = .ok n) :
    IsName x := by
  have hnames : ∀ p ∈ f.names, IsName p.1 := by
    cases f <;> simp [Field.names, IsName]
  unfold Field.resolve at h
  split at h
  · simp at h
  · rename_i hknown
    split at h
    · rename_i m hlookup
      obtain ⟨front, after, heq, _⟩ := List.lookup_eq_some_iff.mp hlookup
      obtain ⟨hne, halpha⟩ := hnames (String.ofList (x.toList.map Char.toLower), m) (by simp [heq])
      rw [String.toList_ofList] at hne halpha
      refine ⟨by simpa using hne, fun c hc => ?_⟩
      exact isAlpha_of_toLower (halpha _ (List.mem_map_of_mem hc))
    · simp at h

variable {f : Field}

theorem Field.isOrdinal {n : Nat} (h : n ≤ f.greatest) : IsOrdinal n := by
  have hgreatest : f.greatest ≤ 4294967295 := by cases f <;> decide
  exact h.trans hgreatest

theorem Spec.IsStandard.isReadable {s : Spec} (h : s.IsStandard f) : s.IsReadable := by
  cases s with
  | unspecified => exact h.elim
  | every => trivial
  | value n => exact f.isOrdinal h.2
  | range a b => exact ⟨f.isOrdinal (h.2.1.trans h.2.2), f.isOrdinal h.2.2⟩
  | named x y =>
    obtain ⟨a, b, hx, hy, _⟩ := h
    exact ⟨Field.isName_of_resolve hx, Field.isName_of_resolve hy⟩

theorem Item.IsStandard.isReadable {i : Item} (h : i.IsStandard f) : i.IsReadable := by
  cases i with
  | set s => exact Spec.IsStandard.isReadable h
  | stepped s n => exact ⟨h.1.isReadable, f.isOrdinal h.2.2⟩
  | name x =>
    obtain ⟨n, hn⟩ := h
    exact Field.isName_of_resolve hn

namespace Field

theorem check_eq_ok_iff {items : List Item} :
    f.check items = .ok () ↔ ∀ i ∈ items, f.checkItem i = .ok () := by
  induction items with
  | nil => simp [check]
  | cons i items ih => cases h : f.checkItem i <;> simp [check, h, ih]

theorem checkItem_stepped_iff {s : Spec} {n : Nat} : f.checkItem (.stepped s n) = .ok () ↔
    (1 ≤ n ∧ n ≤ f.greatest) ∧ f.checkSpec s = .ok () := by
  simp only [checkItem]
  split_ifs with hzero hlong
  · simp [hzero]
  · simp [Nat.not_le.mpr hlong]
  · simp [Nat.one_le_iff_ne_zero, hzero, Nat.not_lt.mp hlong]

theorem checkItem_name_iff {x : String} :
    f.checkItem (.name x) = .ok () ↔ ∃ n, f.resolve x = .ok n := by
  cases h : f.resolve x <;> simp [checkItem, h]

theorem checkSpec_value_iff {n : Nat} :
    f.checkSpec (.value n) = .ok () ↔ f.least ≤ n ∧ n ≤ f.greatest := by
  simp only [checkSpec, checkValue]
  split_ifs with hsmall hlarge
  · simp [Nat.not_le.mpr hsmall]
  · simp [Nat.not_le.mpr hlarge]
  · simp [Nat.not_lt.mp hsmall, Nat.not_lt.mp hlarge]

theorem checkSpec_range_iff {a b : Nat} :
    f.checkSpec (.range a b) = .ok () ↔ f.least ≤ a ∧ a ≤ b ∧ b ≤ f.greatest := by
  simp [checkSpec]

theorem checkSpec_named_iff {x y : String} : f.checkSpec (.named x y) = .ok () ↔
    ∃ a b, f.resolve x = .ok a ∧ f.resolve y = .ok b ∧ a ≤ b := by
  cases hx : f.resolve x with
  | error e => simp [checkSpec, hx]
  | ok a =>
    cases hy : f.resolve y with
    | error e => simp [checkSpec, hx, hy]
    | ok b => simp [checkSpec, hx, hy]

end Field

section
variable (hf : f ≠ .dayOfWeek)
include hf

theorem Spec.IsStandard.checkSpec {s : Spec} (h : s.IsStandard f) : f.checkSpec s = .ok () := by
  have hleast : f.crontabLeast = f.least := by cases f <;> first | rfl | exact absurd rfl hf
  cases s with
  | unspecified => exact h.elim
  | every => rfl
  | value n => exact Field.checkSpec_value_iff.mpr ⟨hleast ▸ h.1, h.2⟩
  | range a b => exact Field.checkSpec_range_iff.mpr ⟨hleast ▸ h.1, h.2.1, h.2.2⟩
  | named x y => exact Field.checkSpec_named_iff.mpr h

theorem Item.IsStandard.checkItem {i : Item} (h : i.IsStandard f) : f.checkItem i = .ok () := by
  cases i with
  | set s => exact Spec.IsStandard.checkSpec hf h
  | stepped s n => exact Field.checkItem_stepped_iff.mpr ⟨h.2, h.1.checkSpec hf⟩
  | name x => exact Field.checkItem_name_iff.mpr h

end

/-- Items that can be read and pass their check are read as a field of their own. -/
theorem Line.readField_write {items : List Item} (hne : items ≠ [])
    (hread : ∀ i ∈ items, i.IsReadable) (hcheck : ∀ i ∈ items, f.checkItem i = .ok ())
    (hgap : ∀ c ∈ (writeItems items).head?, Grammar.isGap c = false) :
    readField f (writeItems items) = .ok (items, []) :=
  readField_eq_ok_iff.mpr
    ⟨Grammar.field_write f hne hread hgap, Field.check_eq_ok_iff.mpr hcheck⟩

end RetentionJobs.Cron
