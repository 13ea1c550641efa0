import RetentionJobs.Cron.Schedule
import RetentionJobs.Proofs.Cron.LineReading
import RetentionJobs.Proofs.Text.Decimal
import RetentionJobs.Proofs.Text.Words
/-! The characters of an accepted expression. A line that is read to its end holds only what the
grammar names, and renumbering the weekdays hides no more than digits, signs and links. -/
namespace RetentionJobs.Cron
open RetentionJobs.Text Grammar

/-- The characters that the grammar names. -/
def isLineChar (c : Char) : Bool :=
  isGap c || c.isDigit || c.isAlpha || isLink c || c == '*' || c == '?'

/-- The characters that a word of an accepted expression can have. -/
def isWordChar (c : Char) : Bool :=
  c.isDigit || c.isAlpha || isLink c || c == '*' || c == '?' || c == '+'

theorem isWordChar_of_isLineChar {c : Char} (h : isLineChar c) (hgap : isGap c = false) :
    isWordChar c := by
  simp_all [isLineChar, isWordChar]

theorem isBlank_of_isGap {c : Char} (h : isGap c) : isBlank c := by
  simp only [isGap, Bool.or_eq_true, beq_iff_eq] at h
  obtain ((rfl | rfl) | rfl) | rfl := h <;> decide

namespace Grammar

theorem frontLaw_isLineChar : FrontLaw (fun front _ => ∀ c ∈ front, isLineChar c) where
  star := by
    rintro _ _ (rfl | rfl) <;> exact List.forall_mem_singleton.mpr rfl
  run := by
    intro p hp before run after rest hgaps _ hrun _ c hc
    simp only [List.append_assoc, List.mem_append] at hc hgaps
    obtain hc | hc | hc := hc
    · simp [isLineChar, hgaps c (.inl hc)]
    · obtain rfl | rfl := hp <;> simp [isLineChar, hrun c hc]
    · simp [isLineChar, hgaps c (.inr hc)]
  link := by
    intro c left right rest hc hleft hright d hd
    obtain hd | rfl | hd := by simpa using hd
    · exact hleft d hd
    · simp [isLineChar, hc]
    · exact hright d hd
  gaps := by
    intro before front after rest hgaps hfront c hc
    simp only [List.append_assoc, List.mem_append] at hc hgaps
    obtain hc | hc | hc := hc
    · simp [isLineChar, hgaps c (.inl hc)]
    · exact hfront c hc
    · simp [isLineChar, hgaps c (.inr hc)]

end Grammar

namespace Line

theorem isLineChar_of_readField {f : Field} {cs rest : List Char} {items : List Item}
    (h : readField f cs = .ok (items, rest)) (hrest : ∀ c ∈ rest, isLineChar c) :
    ∀ c ∈ cs, isLineChar c := by
  obtain ⟨front, rfl, hfront⟩ := Takes.field frontLaw_isLineChar f cs items rest
    (readField_eq_ok_iff.mp h).1
  intro c hc
  exact (List.mem_append.mp hc).elim (hfront c) (hrest c)

theorem isLineChar_of_readYear {cs : List Char} {year : Option (List Item)}
    (h : readYear cs = (year, [])) : ∀ c ∈ cs, isLineChar c := by
  unfold readYear at h
  split at h
  · rename_i items rest hfield
    obtain rfl : rest = [] := congrArg Prod.snd h
    exact isLineChar_of_readField hfield (by simp)
  · obtain rfl : cs = [] := congrArg Prod.snd h
    simp

theorem isLineChar_of_read {cs : List Char} {line : Line} (h : read cs = .ok line) :
    ∀ c ∈ cs, isLineChar c := by
  obtain ⟨_, _, _, _, _, _, h₁, h₂, h₃, h₄, h₅, h₆, h₇⟩ := read_eq_ok_iff.mp h
  exact isLineChar_of_readField h₁ (isLineChar_of_readField h₂ (isLineChar_of_readField h₃
    (isLineChar_of_readField h₄ (isLineChar_of_readField h₅ (isLineChar_of_readField h₆
      (isLineChar_of_readYear h₇))))))

end Line

namespace Weekday

/-- The characters that renumbering can take away or bring in. -/
def isNumbering (c : Char) : Bool := c.isDigit || c == '+' || isLink c

theorem not_mem_of_isNumbering {c : Char} (h : isNumbering c = false) {cs : List Char}
    (hcs : ∀ d ∈ cs, isNumbering d) : c ∉ cs := by
  intro hc
  simp [hcs c hc] at h

theorem not_mem_of_all_isNumbering {c : Char} (h : isNumbering c = false) {cs : List Char}
    (hcs : cs.all isNumbering) : c ∉ cs := not_mem_of_isNumbering h (List.all_eq_true.mp hcs)

theorem ne_of_isLink {c d : Char} (h : isNumbering c = false) (hd : isLink d) : c ≠ d := by
  rintro rfl
  simp [isNumbering, hd] at h

theorem isNumbering_of_mem_digits {n : Nat} {c : Char} (h : c ∈ digits n) : isNumbering c := by
  simp [isNumbering, isDigit_of_mem_digits h]

theorem isNumbering_of_readUnsigned? {day : List Char} {n : Nat} (h : readUnsigned? day = some n) :
    ∀ c ∈ day, isNumbering c := by
  intro c hc
  obtain rfl | hdigit := mem_of_readUnsigned? h hc
  · decide
  · simp [isNumbering, hdigit]

section
variable {c : Char} (h : isNumbering c = false)
include h

theorem mem_renumberDay_iff (day : List Char) : c ∈ renumberDay day ↔ c ∈ day := by
  unfold renumberDay
  split
  · rfl
  · rename_i n hday
    have hc : c ∉ day := not_mem_of_isNumbering h (isNumbering_of_readUnsigned? hday)
    have hone : c ∉ ['1'] := not_mem_of_all_isNumbering h rfl
    have hnext : c ∉ digits (n + 1) :=
      not_mem_of_isNumbering h (fun _ => isNumbering_of_mem_digits)
    split
    · exact iff_of_false hone hc
    · split
      · exact iff_of_false hnext hc
      · rfl

theorem mem_renumberRange_iff (first last : List Char) :
    c ∈ renumberRange first last ↔ c ∈ first ∨ c ∈ last := by
  have hfirst : c ∈ renumberDay first ↔ c ∈ first := mem_renumberDay_iff h first
  unfold renumberRange
  split
  · rename_i hlast
    have hseven : c ∉ last := hlast ▸ not_mem_of_all_isNumbering h rfl
    split
    · rename_i hone
      have hc : c ∉ renumberDay first := hone ▸ not_mem_of_all_isNumbering h rfl
      have hweek : c ∉ ['1', '-', '7'] := not_mem_of_all_isNumbering h rfl
      exact iff_of_false hweek (not_or.mpr ⟨mt hfirst.mpr hc, hseven⟩)
    · have htail : c ∉ ['-', '7', ',', '1'] := not_mem_of_all_isNumbering h rfl
      rw [List.mem_append, hfirst, or_iff_left htail, or_iff_left hseven]
  · have hdash : c ≠ '-' := ne_of_isLink h rfl
    rw [List.mem_append, List.mem_cons, hfirst, mem_renumberDay_iff h, or_iff_right hdash]

theorem mem_renumberDays_iff (days : List Char) : c ∈ renumberDays days ↔ c ∈ days := by
  unfold renumberDays
  obtain ⟨hsplit, _⟩ | ⟨first, last, hsplit, hdays⟩ := splitFirst_spec '-' days
  · rw [hsplit]
    exact mem_renumberDay_iff h days
  · have hdash : c ≠ '-' := ne_of_isLink h rfl
    rw [hsplit, hdays]
    simp [mem_renumberRange_iff h, hdash]

theorem mem_renumberItem_iff (item : List Char) : c ∈ renumberItem item ↔ c ∈ item := by
  unfold renumberItem
  obtain ⟨hsplit, _⟩ | ⟨days, step, hsplit, hitem⟩ := splitFirst_spec '/' item
  · rw [hsplit]
    exact mem_renumberDays_iff h item
  · have hslash : c ≠ '/' := ne_of_isLink h rfl
    rw [hsplit, hitem]
    simp [mem_renumberDays_iff h, hslash]

/-- Renumbering touches digits, plus signs and links only. -/
theorem mem_renumber_iff (field : List Char) : c ∈ renumber field ↔ c ∈ field := by
  have hcomma : c ≠ ',' := ne_of_isLink h rfl
  calc c ∈ renumber field ↔ ∃ item ∈ cut (· == ',') field, c ∈ renumberItem item := by
        rw [renumber, mem_join_iff (by simpa using hcomma)]
        simp
    _ ↔ ∃ item ∈ cut (· == ',') field, c ∈ item := by simp only [mem_renumberItem_iff h]
    _ ↔ c ∈ field := by simp [exists_mem_cut_iff, hcomma]

end
end Weekday

/-- The words with the last one renumbered. -/
def renumberLast (ws : List (List Char)) : List (List Char) :=
  ws.dropLast ++ (ws.getLast?.map Weekday.renumber).toList

/-- The words of the line that the grammar is asked about. -/
def lineWords (ws : List (List Char)) : List (List Char) :=
  renumberLast (if ws.length = 5 then ['0'] :: ws else ws)

theorem lineOf_eq_join (ws : List (List Char)) : lineOf ws = join [' '] (lineWords ws) := rfl

theorem renumberLast_concat (ws : List (List Char)) (w : List Char) :
    renumberLast (ws ++ [w]) = ws ++ [Weekday.renumber w] := by
  simp [renumberLast]

theorem mem_renumberLast {ws : List (List Char)} {w : List Char} (h : w ∈ ws) :
    w ∈ renumberLast ws ∨ Weekday.renumber w ∈ renumberLast ws := by
  obtain rfl | ⟨front, last, rfl⟩ := List.eq_nil_or_concat ws
  · simp at h
  · rw [List.concat_eq_append, renumberLast_concat] at *
    obtain h | h := List.mem_append.mp h
    · exact .inl (List.mem_append_left _ h)
    · obtain rfl := List.mem_singleton.mp h
      exact .inr (List.mem_append_right _ List.mem_cons_self)

theorem mem_lineWords {ws : List (List Char)} {w : List Char} (h : w ∈ ws) :
    w ∈ lineWords ws ∨ Weekday.renumber w ∈ lineWords ws := by
  apply mem_renumberLast
  split
  · exact List.mem_cons_of_mem _ h
  · exact h

theorem checkWords_eq_ok_iff {ws : List (List Char)} :
    checkWords ws = .ok () ↔
      (ws.length = 5 ∨ ws.length = 6) ∧ ∃ line, Line.read (lineOf ws) = .ok line := by
  unfold checkWords
  split
  · rename_i hlen
    cases hread : Line.read (lineOf ws) <;> simp [hlen]
  · rename_i hlen
    simp [hlen]

/-- Words are refused for their number, or else for the line that the grammar does not read. -/
theorem checkWords_eq_error_iff {ws : List (List Char)} {r : Refusal} :
    checkWords ws = .error r ↔
      (¬ (ws.length = 5 ∨ ws.length = 6) ∧ r = .wordCount ws.length) ∨
      ((ws.length = 5 ∨ ws.length = 6) ∧ ∃ stop, Line.read (lineOf ws) = .error stop ∧
        r = .grammar (lineOf ws) stop) := by
  unfold checkWords
  split
  · rename_i hlen
    cases hread : Line.read (lineOf ws) <;> simp [hlen, eq_comm]
  · rename_i hlen
    simp [hlen, eq_comm]

/-- No blank, quote, dollar sign or semicolon gets into a word that is accepted. -/
theorem isWordChar_of_checkWords {ws : List (List Char)} (hws : ∀ w ∈ ws, IsWord w)
    (h : checkWords ws = .ok ()) {w : List Char} (hw : w ∈ ws) {c : Char} (hc : c ∈ w) :
    isWordChar c := by
  obtain ⟨_, line, hread⟩ := checkWords_eq_ok_iff.mp h
  -- renumbering may have brought in or taken away `c` only if it is harmless anyway
  cases hnum : Weekday.isNumbering c with
  | true =>
    simp only [Weekday.isNumbering, Bool.or_eq_true] at hnum
    simp only [isWordChar, Bool.or_eq_true]
    tauto
  | false =>
    have hgap : isGap c = false := by
      by_contra hgap
      have hblank := isBlank_of_isGap (Bool.not_eq_false _ ▸ hgap)
      simp [(hws w hw).2 c hc] at hblank
    have hspace : c ∉ [' '] := by
      rintro hspace
      obtain rfl := List.mem_singleton.mp hspace
      simp [isGap] at hgap
    have hline : c ∈ lineOf ws := by
      rw [lineOf_eq_join, mem_join_iff hspace]
      obtain hw | hw := mem_lineWords hw
      · exact ⟨w, hw, hc⟩
      · exact ⟨_, hw, (Weekday.mem_renumber_iff hnum w).mpr hc⟩
    exact isWordChar_of_isLineChar (Line.isLineChar_of_read hread c hline) hgap

end RetentionJobs.Cron
