import Mathlib.Data.List.Forall2
import Mathlib.Tactic.TFAE
import RetentionJobs.Proofs.Cron.Continuation
import RetentionJobs.Proofs.Cron.Normalization
/-! When the grammar reads a line word by word. The words of an expression and the fields of its
line are found independently of each other; they are the same exactly when every word is
separated. -/
namespace RetentionJobs.Cron
open RetentionJobs.Text Grammar

/-- The positions that the words of a line are assigned to. -/
def Field.positions : List Field := [.second, .minute, .hour, .dayOfMonth, .month, .dayOfWeek]

namespace Line

/-- The items of every position but the year. -/
def fields (line : Line) : List (Field × List Item) :=
  [(.second, line.second), (.minute, line.minute), (.hour, line.hour),
   (.dayOfMonth, line.dayOfMonth), (.month, line.month), (.dayOfWeek, line.dayOfWeek)]

variable {f : Field} {w cs rest more : List Char} {items : List Item}

theorem exists_head_of_readField (h : readField f cs = .ok (items, rest)) :
    ∃ c ∈ cs.head?, isLink c = false :=
  exists_head_of_field (readField_eq_ok_iff.mp h).1

/-- A separated word is read as a field of its own when the text behind it is read on. -/
theorem readField_append_gap (hfree : GapFree w) (hsep : Separated w) (hmore : Fresh more) :
    (readField f (w ++ ' ' :: more) = .ok (items, rest) ∧ ∃ c ∈ rest.head?, isLink c = false) ↔
      readField f w = .ok (items, []) ∧ rest = more := by
  have happend := field_append_gap hmore f (hsep.complete hfree)
  simp only [readField_eq_ok_iff, happend]
  constructor
  · rintro ⟨⟨hfield, hcheck⟩, c, hc, hlink⟩
    obtain ⟨⟨items', left⟩, hword, heq⟩ := Option.map_eq_some_iff.mp hfield
    obtain ⟨rfl, rfl⟩ := Prod.mk.inj heq
    cases left with
    | nil => exact ⟨⟨hword, hcheck⟩, rfl⟩
    | cons d left =>
      obtain rfl : d = c := by simpa using hc
      simp [isLink_head_of_field hfree hsep hword d rfl] at hlink
  · rintro ⟨⟨hfield, hcheck⟩, rfl⟩
    obtain ⟨c, hc, _, hlink⟩ := hmore
    exact ⟨⟨by simp [hfield], hcheck⟩, c, hc, hlink⟩

/-- Nothing that a separated word leaves is read as a year. -/
theorem readYear_of_readField (hfree : GapFree w) (hsep : Separated w)
    (h : readField f w = .ok (items, rest)) : readYear rest = (none, rest) := by
  unfold readYear
  cases hyear : readField .year rest with
  | error e => rfl
  | ok r =>
    obtain ⟨c, hc, hlink⟩ := exists_head_of_readField hyear
    simp [isLink_head_of_field hfree hsep (readField_eq_ok_iff.mp h).1 c hc] at hlink

theorem fresh_join_cons (hfree : GapFree w) (hsep : Separated w) (ws : List (List Char)) :
    Fresh (join [' '] (w :: ws)) := by
  obtain ⟨c, cs, rfl⟩ := List.exists_cons_of_ne_nil hsep.ne_nil
  have hhead : c ∈ (join [' '] ((c :: cs) :: ws)).head? := by
    cases ws <;> simp
  exact ⟨c, hhead, hfree c List.mem_cons_self, hsep.head c rfl⟩

/-- A line of separated words is read word by word, and has no year. -/
theorem read_join_eq_ok_iff {ws : List (List Char)} (hlen : ws.length = 6)
    (hws : ∀ w ∈ ws, GapFree w ∧ Separated w) {line : Line} :
    read (join [' '] ws) = .ok line ↔ line.year = none ∧
      List.Forall₂ (fun p w => readField p.1 w = .ok (p.2, [])) line.fields ws := by
  match ws, hlen with
  | [a, b, c, d, e, g], _ =>
    have hstep : ∀ {f items rest} (v w : List Char) (us : List (List Char)),
        v ∈ [a, b, c, d, e, g] → w ∈ [a, b, c, d, e, g] →
        ((readField f (join [' '] (v :: w :: us)) = .ok (items, rest) ∧
            ∃ x ∈ rest.head?, isLink x = false) ↔
          readField f v = .ok (items, []) ∧ rest = join [' '] (w :: us)) := by
      intro f items rest v w us hv hw
      rw [join_cons_cons]
      exact readField_append_gap (hws v hv).1 (hws v hv).2
        (fresh_join_cons (hws w hw).1 (hws w hw).2 us)
    have hg := hws g (by simp)
    rw [read_eq_ok_iff]
    simp only [fields, List.forall₂_cons, List.forall₂_nil_left_iff, and_true]
    constructor
    -- each rest is read on, so it begins with no link, so nothing of the word is left in it
    · rintro ⟨c₁, c₂, c₃, c₄, c₅, c₆, h₁, h₂, h₃, h₄, h₅, h₆, h₇⟩
      obtain ⟨hw₁, rfl⟩ := (hstep a b _ (by simp) (by simp)).mp ⟨h₁, exists_head_of_readField h₂⟩
      obtain ⟨hw₂, rfl⟩ := (hstep b c _ (by simp) (by simp)).mp ⟨h₂, exists_head_of_readField h₃⟩
      obtain ⟨hw₃, rfl⟩ := (hstep c d _ (by simp) (by simp)).mp ⟨h₃, exists_head_of_readField h₄⟩
      obtain ⟨hw₄, rfl⟩ := (hstep d e _ (by simp) (by simp)).mp ⟨h₄, exists_head_of_readField h₅⟩
      obtain ⟨hw₅, rfl⟩ := (hstep e g _ (by simp) (by simp)).mp ⟨h₅, exists_head_of_readField h₆⟩
      rw [join_singleton] at h₆
      rw [readYear_of_readField hg.1 hg.2 h₆] at h₇
      obtain ⟨hyear, rfl⟩ := Prod.mk.inj h₇
      exact ⟨hyear.symm, hw₁, hw₂, hw₃, hw₄, hw₅, h₆⟩
    · rintro ⟨hyear, h₁, h₂, h₃, h₄, h₅, h₆⟩
      have h₁' := ((hstep a b [c, d, e, g] (by simp) (by simp)).mpr ⟨h₁, rfl⟩).1
      have h₂' := ((hstep b c [d, e, g] (by simp) (by simp)).mpr ⟨h₂, rfl⟩).1
      have h₃' := ((hstep c d [e, g] (by simp) (by simp)).mpr ⟨h₃, rfl⟩).1
      have h₄' := ((hstep d e [g] (by simp) (by simp)).mpr ⟨h₄, rfl⟩).1
      have h₅' := ((hstep e g [] (by simp) (by simp)).mpr ⟨h₅, rfl⟩).1
      have h₇ : readYear [] = (line.year, []) := by rw [hyear]; rfl
      rw [← join_singleton [' '] g] at h₆
      exact ⟨_, _, _, _, _, _, h₁', h₂', h₃', h₄', h₅', h₆, h₇⟩

end Line

theorem gapFree_of_isWord {w : List Char} (h : IsWord w) : GapFree w := by
  intro c hc
  by_contra hgap
  simpa [h.2 c hc] using isBlank_of_isGap ((Bool.not_eq_false _).mp hgap)

theorem Weekday.gapFree_renumber {w : List Char} (h : GapFree w) : GapFree (renumber w) := by
  intro c hc
  by_contra hgap
  have hgap : isGap c := (Bool.not_eq_false _).mp hgap
  have hnum : isNumbering c = false := by
    simp only [isGap, Bool.or_eq_true, beq_iff_eq] at hgap
    obtain ((rfl | rfl) | rfl) | rfl := hgap <;> decide
  simpa [hgap] using h c ((mem_renumber_iff hnum w).mp hc)

section
variable {ws : List (List Char)} (hws : ∀ w ∈ ws, IsWord w)
include hws

theorem gapFree_of_mem_renumberLast {w : List Char} (hw : w ∈ renumberLast ws) : GapFree w := by
  obtain rfl | ⟨front, last, rfl⟩ := List.eq_nil_or_concat ws
  · simp [renumberLast] at hw
  · rw [List.concat_eq_append, renumberLast_concat] at *
    obtain hw | hw := List.mem_append.mp hw
    · exact gapFree_of_isWord (hws w (List.mem_append_left _ hw))
    · obtain rfl := List.mem_singleton.mp hw
      exact Weekday.gapFree_renumber
        (gapFree_of_isWord (hws last (List.mem_append_right _ List.mem_cons_self)))

theorem gapFree_of_mem_lineWords {w : List Char} (hw : w ∈ lineWords ws) : GapFree w := by
  refine gapFree_of_mem_renumberLast ?_ hw
  split
  · have hzero : IsWord ['0'] := ⟨List.cons_ne_nil _ _, List.forall_mem_singleton.mpr rfl⟩
    exact List.forall_mem_cons.mpr ⟨hzero, hws⟩
  · exact hws

end

theorem length_renumberLast (ws : List (List Char)) : (renumberLast ws).length = ws.length := by
  obtain rfl | ⟨front, last, rfl⟩ := List.eq_nil_or_concat ws
  · rfl
  · simp [List.concat_eq_append, renumberLast_concat]

theorem length_lineWords {ws : List (List Char)} (h : ws.length = 5 ∨ ws.length = 6) :
    (lineWords ws).length = 6 := by
  unfold lineWords
  rw [length_renumberLast]
  split
  · simpa using ‹_›
  · tauto

/-- An accepted expression is read word by word exactly when its words, with the weekdays
renumbered, are separated. Each word is then a field of its own position, its items are those that
the line gets, and no year is read. -/
theorem parse_tfae {e : String} {s : Schedule} (h : Schedule.parse e = .ok s) :
    List.TFAE [
      List.Forall₂ (fun f w => ∃ items, Line.readField f w = .ok (items, [])) Field.positions
        (lineWords (words e.toList)),
      ∃ line, Line.read (lineOf (words e.toList)) = .ok line ∧ line.year = none ∧
        List.Forall₂ (fun p w => Line.readField p.1 w = .ok (p.2, [])) line.fields
          (lineWords (words e.toList)),
      ∀ w ∈ lineWords (words e.toList), Separated w] := by
  obtain ⟨hlen, line, hread⟩ := checkWords_eq_ok_iff.mp (Schedule.parse_eq_ok_iff.mp h).1
  have hfree : ∀ w ∈ lineWords (words e.toList), GapFree w := fun _ hw =>
    gapFree_of_mem_lineWords (fun _ => isWord_of_mem_words) hw
  tfae_have 1 → 3 := by
    intro hfields w hw
    have hany : List.Forall₂ (fun w _ => (∃ f items, Line.readField f w = .ok (items, [])) ∧ True)
        (lineWords (words e.toList)) Field.positions :=
      hfields.flip.imp fun w f hw => ⟨⟨f, hw⟩, trivial⟩
    obtain ⟨f, items, hfield⟩ := ((List.forall₂_and_left _ _).mp hany).1 w hw
    exact separated_of_field (hfree w hw) (Line.readField_eq_ok_iff.mp hfield).1
  tfae_have 3 → 2 := by
    intro hsep
    have hwords : ∀ w ∈ lineWords (words e.toList), GapFree w ∧ Separated w := fun w hw =>
      ⟨hfree w hw, hsep w hw⟩
    exact ⟨line, hread, (Line.read_join_eq_ok_iff (length_lineWords hlen) hwords).mp hread⟩
  tfae_have 2 → 1 := by
    rintro ⟨line, _, _, hfields⟩
    have hpositions : Field.positions = line.fields.map Prod.fst := rfl
    rw [hpositions, List.forall₂_map_left_iff]
    exact hfields.imp fun p w hw => ⟨p.2, hw⟩
  tfae_finish

/-- An expression with a step, a range, a list and names is read word by word. -/
theorem parse_tfae_weekdays :
    Schedule.parse "*/15 9-17  * jan,JUL mon-fri" = .ok ⟨none, some "*/15", some "9-17", some "*",
        some "jan,JUL", some "mon-fri"⟩ ∧
      ∃ line, Line.read (lineOf (words "*/15 9-17  * jan,JUL mon-fri".toList)) = .ok line ∧
        line.year = none ∧
        List.Forall₂ (fun p w => Line.readField p.1 w = .ok (p.2, [])) line.fields
          (lineWords (words "*/15 9-17  * jan,JUL mon-fri".toList)) := by
  have h : Schedule.parse "*/15 9-17  * jan,JUL mon-fri" = .ok ⟨none, some "*/15", some "9-17",
      some "*", some "jan,JUL", some "mon-fri"⟩ := by decide +kernel
  exact ⟨h, ((parse_tfae h).out 2 1).mp (by decide +kernel)⟩

/-- A word of two stars is accepted. It is read as two fields, and the weekday as a year. -/
theorem parse_not_word_by_word :
    (∃ s, Schedule.parse "** * * * *" = .ok s) ∧
      ¬ List.Forall₂ (fun f w => ∃ items, Line.readField f w = .ok (items, [])) Field.positions
        (lineWords (words "** * * * *".toList)) ∧
      ∃ line, Line.read (lineOf (words "** * * * *".toList)) = .ok line ∧ line.year.isSome := by
  have hparse : Schedule.parse "** * * * *" = .ok ⟨none, some "**", some "*", some "*", some "*",
      some "*"⟩ := by decide +kernel
  have hstars : Line.readField .minute ['*', '*'] = .ok ([.set .every], ['*']) := by decide +kernel
  have hwords : lineWords (words "** * * * *".toList) =
      [['0'], ['*', '*'], ['*'], ['*'], ['*'], ['*']] := by decide +kernel
  have hread : Line.read (lineOf (words "** * * * *".toList)) =
      .ok ⟨[.set (.value 0)], [.set .every], [.set .every], [.set .every], [.set .every],
        [.set .every], some [.set .every]⟩ := by decide +kernel
  refine ⟨⟨_, hparse⟩, ?_, _, hread, rfl⟩
  rw [hwords, Field.positions]
  simp [hstars]

end RetentionJobs.Cron
