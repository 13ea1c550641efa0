import RetentionJobs.Proofs.Cron.Crontab
import RetentionJobs.Proofs.Cron.WordReading
/-! The texts that a field reads and accepts, whatever follows them. The weekday field is the last
one of a line apart from the year, so that a text in its place is accepted when weekdays are read
off its front and nothing is left behind them but a year. -/
namespace RetentionJobs.Cron
open RetentionJobs.Text Grammar

/-- The text of an item that passes its check. -/
def IsItemText (f : Field) (cs : List Char) : Prop :=
  ∃ i : Item, i.Spelled f cs ∧ f.checkItem i = .ok ()

/-- The text of a non-empty list of such items. -/
def IsListText (f : Field) (cs : List Char) : Prop := ∀ part ∈ cut (· == ',') cs, IsItemText f part

variable {f : Field} {cs rest : List Char}

theorem isListText_iff :
    IsListText f cs ↔ ∃ items, SpelledList f items cs ∧ f.check items = .ok () := by
  simp only [IsListText, SpelledList, Field.check_eq_ok_iff]
  generalize cut (· == ',') cs = parts
  induction parts with
  | nil => simp
  | cons part parts ih =>
    simp only [List.forall_mem_cons, ih, List.forall₂_cons_right_iff]
    constructor
    · rintro ⟨⟨i, hi, hcheck⟩, items, hitems, hchecks⟩
      exact ⟨i :: items, ⟨i, items, hi, hitems, rfl⟩, List.forall_mem_cons.mpr ⟨hcheck, hchecks⟩⟩
    · rintro ⟨_, ⟨i, items, hi, hitems, rfl⟩, hchecks⟩
      obtain ⟨hcheck, hchecks⟩ := List.forall_mem_cons.mp hchecks
      exact ⟨⟨i, hi, hcheck⟩, items, hitems, hchecks⟩

namespace Line

/-- Of a text without gaps a field reads a list of accepted items, as far as its last run goes. -/
theorem readField_text {items : List Item} (hfree : GapFree cs)
    (h : readField f cs = .ok (items, rest)) :
    ∃ front, cs = front ++ rest ∧ IsListText f front ∧ EndsRun front rest := by
  obtain ⟨hfield, hcheck⟩ := readField_eq_ok_iff.mp h
  obtain ⟨front, hcs, hitems, hends⟩ := spells_field f hfree hfield
  exact ⟨front, hcs, isListText_iff.mpr ⟨items, hitems, hcheck⟩, hends⟩

/-- A list of accepted items is read, whatever follows it that is no part of it. -/
theorem exists_readField {front : List Char} (hfree : GapFree (front ++ rest))
    (h : IsListText f front) (hends : EndsRun front rest)
    (hrest : ∀ c ∈ rest.head?, isLink c = false) :
    ∃ items, readField f (front ++ rest) = .ok (items, rest) := by
  obtain ⟨items, hitems, hcheck⟩ := isListText_iff.mp h
  have hfront : ∀ c ∈ front.head?, isGap c = false := fun c hc =>
    hfree.of_append_left c (List.mem_of_mem_head? hc)
  have hhalts : Halts front rest :=
    ⟨hends, fun c hc => hfree.of_append_right c (List.mem_of_mem_head? hc)⟩
  exact ⟨items, readField_eq_ok_iff.mpr ⟨field_spelled hitems hfront hhalts hrest, hcheck⟩⟩

/-- A text without gaps is a field of its own when it is a list of accepted items. -/
theorem exists_readField_nil_iff (hfree : GapFree cs) :
    (∃ items, readField f cs = .ok (items, [])) ↔ IsListText f cs := by
  constructor
  · rintro ⟨items, h⟩
    obtain ⟨front, hcs, hfront, _⟩ := readField_text hfree h
    simpa [hcs] using hfront
  · intro h
    rw [← List.append_nil cs] at hfree
    simpa using exists_readField hfree h (by simp [EndsRun]) (by simp)

theorem readYear_nil_iff (hfree : GapFree cs) :
    (readYear cs).2 = [] ↔ cs = [] ∨ IsListText .year cs := by
  rw [← exists_readField_nil_iff hfree, readYear]
  cases h : readField .year cs with
  | error stop => simp
  | ok r =>
    obtain ⟨items, rest⟩ := r
    have hne : cs ≠ [] := by
      rintro rfl
      cases h
    simp [hne]

/-- A line up to the weekdays, with second, minute and hour 0. -/
def midnight : List Char := ['0', ' ', '0', ' ', '0', ' ', '*', ' ', '*', ' ']

/-- The first five fields are read and the gap behind them is passed over. -/
theorem read_midnight (days : List Char) (hfree : GapFree days) :
    (∃ line, read (midnight ++ days) = .ok line) ↔
      ∃ items rest, readField .dayOfWeek days = .ok (items, rest) ∧ (readYear rest).2 = [] := by
  have hsecond : readField .second (midnight ++ days) =
      .ok ([.set (.value 0)], midnight.drop 2 ++ days) := rfl
  have hminute : readField .minute (midnight.drop 2 ++ days) =
      .ok ([.set (.value 0)], midnight.drop 4 ++ days) := rfl
  have hhour : readField .hour (midnight.drop 4 ++ days) =
      .ok ([.set (.value 0)], midnight.drop 6 ++ days) := rfl
  have hday : readField .dayOfMonth (midnight.drop 6 ++ days) =
      .ok ([.set .every], midnight.drop 8 ++ days) := rfl
  have hmonth : readField .month (midnight.drop 8 ++ days) = .ok ([.set .every], days) := by
    have h : readField .month (midnight.drop 8 ++ days) = .ok ([.set .every], skipGap days) := rfl
    rw [h, hfree.skipGap_eq]
  constructor
  · rintro ⟨line, h⟩
    obtain ⟨c₁, c₂, c₃, c₄, c₅, c₆, h₁, h₂, h₃, h₄, h₅, h₆, h₇⟩ := read_eq_ok_iff.mp h
    obtain ⟨-, rfl⟩ := Prod.mk.inj (Except.ok.inj (hsecond.symm.trans h₁))
    obtain ⟨-, rfl⟩ := Prod.mk.inj (Except.ok.inj (hminute.symm.trans h₂))
    obtain ⟨-, rfl⟩ := Prod.mk.inj (Except.ok.inj (hhour.symm.trans h₃))
    obtain ⟨-, rfl⟩ := Prod.mk.inj (Except.ok.inj (hday.symm.trans h₄))
    obtain ⟨-, rfl⟩ := Prod.mk.inj (Except.ok.inj (hmonth.symm.trans h₅))
    exact ⟨line.dayOfWeek, c₆, h₆, congrArg Prod.snd h₇⟩
  · rintro ⟨items, rest, hdays, hyear⟩
    refine ⟨⟨_, _, _, _, _, items, (readYear rest).1⟩, read_eq_ok_iff.mpr
      ⟨_, _, _, _, days, rest, hsecond, hminute, hhour, hday, hmonth, hdays, ?_⟩⟩
    exact Prod.ext rfl hyear

/-- Weekdays at the end of a line are a list of accepted items, perhaps with a year behind it. -/
theorem read_midnight_iff {days : List Char} (hfree : GapFree days) :
    (∃ line, read (midnight ++ days) = .ok line) ↔ ∃ front rest, days = front ++ rest ∧
      IsListText .dayOfWeek front ∧ EndsRun front rest ∧ (rest = [] ∨ IsListText .year rest) := by
  rw [read_midnight days hfree]
  constructor
  · rintro ⟨items, rest, hdays, hyear⟩
    obtain ⟨front, rfl, hfront, hends⟩ := readField_text hfree hdays
    exact ⟨front, rest, rfl, hfront, hends, (readYear_nil_iff hfree.of_append_right).mp hyear⟩
  · rintro ⟨front, rest, rfl, hfront, hends, hyear⟩
    have hrest : ∀ c ∈ rest.head?, isLink c = false := by
      obtain rfl | hyear := hyear
      · simp
      · obtain ⟨items, hread⟩ := (exists_readField_nil_iff hfree.of_append_right).mpr hyear
        obtain ⟨c, hc, hlink⟩ := exists_head_of_readField hread
        intro d hd
        rwa [Option.mem_unique hd hc]
    obtain ⟨items, hdays⟩ := exists_readField hfree hfront hends hrest
    exact ⟨items, rest, hdays, (readYear_nil_iff hfree.of_append_right).mpr hyear⟩

end Line
end RetentionJobs.Cron
