import RetentionJobs.Proofs.Cron.Spelled
/-! Items as they are written. A field reads what is written for a list of items as those items, and
reads it to its end. -/
namespace RetentionJobs.Cron
open RetentionJobs.Text

/-- The text of a set of values. -/
def Spec.write : Spec → List Char
  | .unspecified => ['?']
  | .every => ['*']
  | .value n => digits n
  | .range a b => digits a ++ '-' :: digits b
  | .named x y => x.toList ++ '-' :: y.toList

/-- The text of an item. -/
def Item.write : Item → List Char
  | .set s => s.write
  | .stepped s n => s.write ++ '/' :: digits n
  | .name x => x.toList

/-- The text of a list of items, with commas in between. -/
def writeItems (items : List Item) : List Char := join [','] (items.map Item.write)

/-- Sets of values that can be read in every position. -/
def Spec.IsReadable : Spec → Prop
  | .unspecified => False
  | .every => True
  | .value n => IsOrdinal n
  | .range a b => IsOrdinal a ∧ IsOrdinal b
  | .named x y => IsName x ∧ IsName y

/-- Items that can be read in every position. -/
def Item.IsReadable : Item → Prop
  | .set s => s.IsReadable
  | .stepped s n => s.IsReadable ∧ IsOrdinal n
  | .name x => IsName x

theorem isNumeral_digits {n : Nat} (h : IsOrdinal n) : IsNumeral n (digits n) :=
  ⟨readDigits?_digits n, h⟩

variable {f : Field}

theorem Spec.IsReadable.spelled {s : Spec} (h : s.IsReadable) : s.Spelled f s.write := by
  cases s with
  | unspecified => exact h.elim
  | every => exact .every
  | value n => exact .value (isNumeral_digits h)
  | range a b => exact .range (isNumeral_digits h.1) (isNumeral_digits h.2)
  | named x y => exact .named h.1 h.2

theorem Item.IsReadable.spelled {i : Item} (h : i.IsReadable) : i.Spelled f i.write := by
  cases i with
  | set s => exact .set (Spec.IsReadable.spelled h)
  | stepped s n => exact .stepped h.1.spelled (isNumeral_digits h.2)
  | name x => exact .name h

namespace Grammar

/-- A list of items is read as it was written. -/
theorem field_write (f : Field) {items : List Item} (hne : items ≠ [])
    (h : ∀ i ∈ items, i.IsReadable) (hgap : ∀ c ∈ (writeItems items).head?, isGap c = false) :
    field f (writeItems items) = some (items, []) := by
  have hspelled : List.Forall₂ (Item.Spelled f) items (items.map Item.write) := by
    rw [List.forall₂_map_right_iff, List.forall₂_same]
    exact fun i hi => (h i hi).spelled
  have hlist : SpelledList f items (writeItems items) := spelledList_join (by simpa using hne) hspelled
  simpa using field_spelled hlist hgap halts_nil (by simp)

end Grammar
end RetentionJobs.Cron
