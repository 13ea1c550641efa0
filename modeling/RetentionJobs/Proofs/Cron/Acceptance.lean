import RetentionJobs.Proofs.Cron.WeekdayShift
import RetentionJobs.Proofs.Cron.WordReading
/-! Every standard crontab line is accepted, with its words as they stand. -/
namespace RetentionJobs.Cron
open RetentionJobs.Text Grammar

/-- A crontab line, perhaps with a second in front. -/
structure Crontab where
  second : Option (List Item)
  minute : List Item
  hour : List Item
  dayOfMonth : List Item
  month : List Item
  dayOfWeek : List Item
  deriving DecidableEq, Repr

/-- A non-empty list of standard items. -/
def IsStandardList (f : Field) (items : List Item) : Prop :=
  items ≠ [] ∧ ∀ i ∈ items, i.IsStandard f

namespace Crontab

/-- Every field is a standard one of its position. -/
structure IsStandard (t : Crontab) : Prop where
  second : ∀ items ∈ t.second, IsStandardList .second items
  minute : IsStandardList .minute t.minute
  hour : IsStandardList .hour t.hour
  dayOfMonth : IsStandardList .dayOfMonth t.dayOfMonth
  month : IsStandardList .month t.month
  dayOfWeek : IsStandardList .dayOfWeek t.dayOfWeek

/-- The words of a line, five or six. -/
def words (t : Crontab) : List (List Char) :=
  (t.second.toList ++ [t.minute, t.hour, t.dayOfMonth, t.month, t.dayOfWeek]).map writeItems

/-- The schedule that has every word as it stands. -/
def schedule (t : Crontab) : Schedule where
  second := t.second.map fun items => .ofList (writeItems items)
  minute := some (.ofList (writeItems t.minute))
  hour := some (.ofList (writeItems t.hour))
  dayOfMonth := some (.ofList (writeItems t.dayOfMonth))
  month := some (.ofList (writeItems t.month))
  dayOfWeek := some (.ofList (writeItems t.dayOfWeek))

/-- What the grammar makes of a line: second 0 by default, and weekdays counted from 1 on. -/
def line (t : Crontab) : Line where
  second := t.second.getD [.set (.value 0)]
  minute := t.minute
  hour := t.hour
  dayOfMonth := t.dayOfMonth
  month := t.month
  dayOfWeek := t.dayOfWeek.flatMap Weekday.shiftItem
  year := none

theorem length_words (t : Crontab) : t.words.length = 5 ∨ t.words.length = 6 := by
  cases h : t.second <;> simp [words, h]

theorem ofWords?_words (t : Crontab) : Schedule.ofWords? t.words = some t.schedule := by
  cases h : t.second <;> simp [words, schedule, Schedule.ofWords?, h]

end Crontab

/-- The items of a position can be read there and pass their check. -/
def IsAcceptable (p : Field × List Item) : Prop :=
  p.2 ≠ [] ∧ (∀ i ∈ p.2, i.IsReadable) ∧ ∀ i ∈ p.2, p.1.checkItem i = .ok ()

theorem IsStandardList.isAcceptable {f : Field} (hf : f ≠ .dayOfWeek) {items : List Item}
    (h : IsStandardList f items) : IsAcceptable (f, items) :=
  ⟨h.1, fun i hi => (h.2 i hi).isReadable, fun i hi => (h.2 i hi).checkItem hf⟩

theorem IsStandardList.isAcceptable_shift {items : List Item}
    (h : IsStandardList .dayOfWeek items) :
    IsAcceptable (.dayOfWeek, items.flatMap Weekday.shiftItem) := by
  have hshift : ∀ j ∈ items.flatMap Weekday.shiftItem,
      j.IsReadable ∧ Field.checkItem .dayOfWeek j = .ok () := by
    intro j hj
    obtain ⟨i, hi, hj⟩ := List.mem_flatMap.mp hj
    exact Weekday.shiftItem_checked (h.2 i hi) hj
  refine ⟨?_, fun j hj => (hshift j hj).1, fun j hj => (hshift j hj).2⟩
  obtain ⟨i, items, rfl⟩ := List.exists_cons_of_ne_nil h.1
  simp [Weekday.shiftItem_ne_nil]

namespace Crontab
variable {t : Crontab} (h : t.IsStandard)
include h

theorem IsStandard.isAcceptable : ∀ p ∈ t.line.fields, IsAcceptable p := by
  have hsecond : IsAcceptable (.second, t.line.second) := by
    cases hs : t.second with
    | none =>
      have hzero : IsStandardList .second [.set (.value 0)] := by
        refine ⟨List.cons_ne_nil _ _, fun i hi => ?_⟩
        obtain rfl := List.mem_singleton.mp hi
        exact ⟨Nat.le_refl 0, by decide⟩
      have hdefault : t.line.second = [.set (.value 0)] := by simp [line, hs]
      rw [hdefault]
      exact hzero.isAcceptable (by decide)
    | some items =>
      have hitems : t.line.second = items := by simp [line, hs]
      rw [hitems]
      exact (h.second items hs).isAcceptable (by decide)
  simp only [Line.fields, List.forall_mem_cons]
  exact ⟨hsecond, h.minute.isAcceptable (by decide), h.hour.isAcceptable (by decide),
    h.dayOfMonth.isAcceptable (by decide), h.month.isAcceptable (by decide),
    h.dayOfWeek.isAcceptable_shift, by simp⟩

/-- The grammar is asked about the items that it makes of the line. -/
theorem IsStandard.lineWords_words :
    lineWords t.words = t.line.fields.map fun p => writeItems p.2 := by
  have hdays := Weekday.renumber_write h.dayOfWeek.1 h.dayOfWeek.2
  have hzero : writeItems [.set (.value 0)] = ['0'] :=
    (join_singleton _ _).trans (Weekday.digits_of_lt (by decide))
  cases hs : t.second <;>
    simp [lineWords, renumberLast, words, line, Line.fields, hs, hdays, hzero]

end Crontab

/-- A standard crontab line is accepted, every word of it stands in its field, and its normal form
is the words with single spaces. -/
theorem parse_crontab {t : Crontab} (h : t.IsStandard) {e : String}
    (he : words e.toList = t.words) :
    Schedule.parse e = .ok t.schedule ∧ normalize e = .ok (.ofList (join [' '] t.words)) := by
  have hlen := t.length_words
  have hfree : ∀ w ∈ lineWords t.words, GapFree w := fun _ hw =>
    gapFree_of_mem_lineWords (fun _ hw => isWord_of_mem_words (he ▸ hw)) hw
  -- the line's words have no gaps because they come from words of `e`
  rw [h.lineWords_words] at hfree
  have hread : ∀ p ∈ t.line.fields, Line.readField p.1 (writeItems p.2) = .ok (p.2, []) := by
    intro p hp
    obtain ⟨hne, hreadable, hcheck⟩ := h.isAcceptable p hp
    exact Line.readField_write hne hreadable hcheck fun c hc =>
      hfree _ (List.mem_map_of_mem hp) c (List.mem_of_mem_head? hc)
  have hfields : List.Forall₂ (fun p w => Line.readField p.1 w = .ok (p.2, [])) t.line.fields
      (t.line.fields.map fun p => writeItems p.2) := by
    rw [List.forall₂_map_right_iff, List.forall₂_same]
    exact hread
  have hsep : ∀ w ∈ lineWords t.words, GapFree w ∧ Separated w := by
    rw [h.lineWords_words]
    intro w hw
    obtain ⟨p, hp, rfl⟩ := List.mem_map.mp hw
    have hfield := (Line.readField_eq_ok_iff.mp (hread p hp)).1
    exact ⟨hfree _ hw, separated_of_field (hfree _ hw) hfield⟩
  have hline : Line.read (lineOf t.words) = .ok t.line :=
    (Line.read_join_eq_ok_iff (length_lineWords hlen) hsep).mpr ⟨rfl, h.lineWords_words ▸ hfields⟩
  have hparse : Schedule.parse e = .ok t.schedule := by
    rw [Schedule.parse_eq_ok_iff, he]
    exact ⟨checkWords_eq_ok_iff.mpr ⟨hlen, _, hline⟩, t.ofWords?_words⟩
  exact ⟨hparse, he ▸ normalize_of_parse hparse⟩

/-- Every ten seconds in some minutes, on weekends in spring. -/
def springWeekends : Crontab where
  second := some [.stepped .every 10]
  minute := [.set (.value 0), .stepped (.range 15 45) 5]
  hour := [.set .every]
  dayOfMonth := [.set (.range 1 31)]
  month := [.set (.named "MAR" "may")]
  dayOfWeek := [.name "Sat", .stepped (.range 5 7) 2, .set (.value 0)]

theorem parse_springWeekends :
    springWeekends.IsStandard ∧
      Schedule.parse "*/10 0,15-45/5 *  1-31 MAR-may Sat,5-7/2,0" = .ok springWeekends.schedule ∧
      normalize "*/10 0,15-45/5 *  1-31 MAR-may Sat,5-7/2,0" =
        .ok (.ofList (join [' '] springWeekends.words)) := by
  have hmarch : Field.resolve .month "MAR" = .ok 3 := by decide +kernel
  have hmay : Field.resolve .month "may" = .ok 5 := by decide +kernel
  have hsaturday : Field.resolve .dayOfWeek "Sat" = .ok 7 := by decide +kernel
  have h : springWeekends.IsStandard := by
    constructor <;>
      simp [springWeekends, IsStandardList, Item.IsStandard, Spec.IsStandard, Field.crontabLeast,
        Field.least, Field.greatest, hmarch, hmay, hsaturday]
  exact ⟨h, parse_crontab h (by decide +kernel)⟩

end RetentionJobs.Cron
