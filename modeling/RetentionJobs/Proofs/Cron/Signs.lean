import RetentionJobs.Proofs.Cron.Spacing
/-! Plus signs in an accepted expression. The grammar has none, so a sign can only stand where
renumbering takes it away: in a weekday, in front of its digits. -/
namespace RetentionJobs.Cron
open RetentionJobs.Text

/-- Every plus sign stands right before a digit. -/
def SignsDigits (cs : List Char) : Prop :=
  ∀ front back, cs = front ++ '+' :: back → ∃ d ∈ back.head?, d.isDigit

section
variable {cs ds : List Char}

theorem signsDigits_of_not_mem (h : '+' ∉ cs) : SignsDigits cs := by
  rintro front back rfl
  simp at h

theorem SignsDigits.append (hcs : SignsDigits cs) (hds : SignsDigits ds) :
    SignsDigits (cs ++ ds) := by
  intro front back h
  obtain ⟨middle, -, hmiddle⟩ | ⟨middle, hcut, hmiddle⟩ := List.append_eq_append_iff.mp h
  · exact hds middle back hmiddle
  · cases middle with
    | nil => exact hds [] back hmiddle.symm
    | cons c middle =>
      -- the digit that follows the sign is still one of `cs`
      obtain ⟨rfl, rfl⟩ := List.cons.inj hmiddle
      obtain ⟨d, hd, hdigit⟩ := hcs front middle hcut
      exact ⟨d, List.mem_head?_append_of_mem_head? hd, hdigit⟩

theorem SignsDigits.link {c : Char} (hc : c ≠ '+') (hcs : SignsDigits cs) (hds : SignsDigits ds) :
    SignsDigits (cs ++ c :: ds) := by
  have hlink : SignsDigits [c] := signsDigits_of_not_mem (by simpa using hc.symm)
  exact hcs.append (hlink.append hds)

theorem SignsDigits.join {sep : List Char} (hsep : '+' ∉ sep) {pieces : List (List Char)}
    (h : ∀ piece ∈ pieces, SignsDigits piece) : SignsDigits (join sep pieces) := by
  induction pieces with
  | nil => exact signsDigits_of_not_mem List.not_mem_nil
  | cons first pieces ih =>
    obtain ⟨hfirst, hpieces⟩ := List.forall_mem_cons.mp h
    cases pieces with
    | nil => simpa using hfirst
    | cons second pieces =>
      rw [join_cons_cons]
      exact hfirst.append ((signsDigits_of_not_mem hsep).append (ih hpieces))

/-- A number has a sign at most in front of its digits. -/
theorem signsDigits_of_readUnsigned? {n : Nat} (h : readUnsigned? cs = some n) :
    SignsDigits cs := by
  have hplus : ∀ {ds : List Char}, readDigits? ds = some n → '+' ∉ ds := fun hread hmem =>
    absurd ((isDigit_of_readDigits? hread).2 '+' hmem) (by decide)
  unfold readUnsigned? at h
  split at h
  · rename_i ds
    intro front back hcut
    cases front with
    | nil =>
      obtain ⟨-, rfl⟩ := List.cons.inj hcut
      obtain ⟨hne, hdigits⟩ := isDigit_of_readDigits? h
      obtain ⟨d, rest, rfl⟩ := List.exists_cons_of_ne_nil hne
      exact ⟨d, rfl, hdigits d List.mem_cons_self⟩
    | cons c front =>
      obtain ⟨-, rfl⟩ := List.cons.inj hcut
      exact absurd (by simp) (hplus h)
  · exact signsDigits_of_not_mem (hplus h)

end

namespace Weekday

/-! A text that has no sign once it is renumbered had signs before digits only. -/

theorem signsDigits_of_renumberDay {day : List Char} (h : '+' ∉ renumberDay day) :
    SignsDigits day := by
  unfold renumberDay at h
  split at h
  · exact signsDigits_of_not_mem h
  · rename_i n hread
    exact signsDigits_of_readUnsigned? hread

theorem signsDigits_of_renumberRange {first last : List Char}
    (h : '+' ∉ renumberRange first last) : SignsDigits (first ++ '-' :: last) := by
  have hplus : ('-' : Char) ≠ '+' := by decide
  have hends : '+' ∉ renumberDay first ∧ SignsDigits last := by
    unfold renumberRange at h
    split at h
    · rename_i hseven
      have hlast : SignsDigits last := signsDigits_of_not_mem (by simp [hseven])
      split at h
      · rename_i hone
        exact ⟨by simp [hone], hlast⟩
      · exact ⟨fun hmem => h (List.mem_append_left _ hmem), hlast⟩
    · refine ⟨fun hmem => h (List.mem_append_left _ hmem), signsDigits_of_renumberDay fun hmem => ?_⟩
      exact h (List.mem_append_right _ (List.mem_cons_of_mem _ hmem))
  exact (signsDigits_of_renumberDay hends.1).link hplus hends.2

theorem signsDigits_of_renumberDays {days : List Char} (h : '+' ∉ renumberDays days) :
    SignsDigits days := by
  unfold renumberDays at h
  obtain ⟨hsplit, _⟩ | ⟨first, last, hsplit, rfl⟩ := splitFirst_spec '-' days
  · rw [hsplit] at h
    exact signsDigits_of_renumberDay h
  · rw [hsplit] at h
    exact signsDigits_of_renumberRange h

theorem signsDigits_of_renumberItem {item : List Char} (h : '+' ∉ renumberItem item) :
    SignsDigits item := by
  unfold renumberItem at h
  obtain ⟨hsplit, _⟩ | ⟨days, step, hsplit, rfl⟩ := splitFirst_spec '/' item
  · rw [hsplit] at h
    exact signsDigits_of_renumberDays h
  · rw [hsplit] at h
    have hplus : ('/' : Char) ≠ '+' := by decide
    have hdays : '+' ∉ renumberDays days := fun hmem => h (List.mem_append_left _ hmem)
    have hstep : '+' ∉ step := fun hmem =>
      h (List.mem_append_right _ (List.mem_cons_of_mem _ hmem))
    exact (signsDigits_of_renumberDays hdays).link hplus (signsDigits_of_not_mem hstep)

theorem signsDigits_of_renumber {field : List Char} (h : '+' ∉ renumber field) :
    SignsDigits field := by
  have hcomma : '+' ∉ [','] := by decide
  rw [renumber, mem_join_iff hcomma] at h
  rw [← join_cut ',' field]
  refine SignsDigits.join hcomma fun item hitem => signsDigits_of_renumberItem fun hmem => ?_
  exact h ⟨_, List.mem_map_of_mem hitem, hmem⟩

end Weekday

/-- Of the words of an accepted expression only the last one has signs, and they are before digits. -/
theorem signs_of_checkWords {front : List (List Char)} {last : List Char}
    (h : checkWords (front ++ [last]) = .ok ()) : (∀ w ∈ front, '+' ∉ w) ∧ SignsDigits last := by
  obtain ⟨-, line, hread⟩ := checkWords_eq_ok_iff.mp h
  have hline : '+' ∉ lineOf (front ++ [last]) := fun hmem =>
    absurd (Line.isLineChar_of_read hread '+' hmem) (by decide)
  obtain ⟨zero, hwords⟩ : ∃ zero, lineWords (front ++ [last]) =
      zero ++ front ++ [Weekday.renumber last] := by
    unfold lineWords
    split
    · exact ⟨[['0']], by rw [← List.cons_append, renumberLast_concat]; rfl⟩
    · exact ⟨[], renumberLast_concat front last⟩
  rw [lineOf_eq_join, mem_join_iff (by decide), hwords] at hline
  constructor
  · exact fun w hw hmem => hline ⟨w, by simp [hw], hmem⟩
  · exact Weekday.signsDigits_of_renumber fun hmem => hline ⟨_, by simp, hmem⟩

namespace Schedule

/-- The fields that are given, without the weekday. -/
def beforeWeekday (s : Schedule) : List String :=
  [s.second, s.minute, s.hour, s.dayOfMonth, s.month].filterMap id

theorem given_eq_append (s : Schedule) : s.given = s.beforeWeekday ++ s.dayOfWeek.toList := by
  show List.filterMap id ([s.second, s.minute, s.hour, s.dayOfMonth, s.month] ++ [s.dayOfWeek]) = _
  rw [List.filterMap_append]
  cases s.dayOfWeek <;> rfl

/-- The last word becomes the weekday, and the others become the fields before it. -/
theorem ofWords?_eq_some {ws : List (List Char)} {s : Schedule} (h : ofWords? ws = some s) :
    ∃ front last, ws = front ++ [last] ∧ s.beforeWeekday = front.map String.ofList ∧
      s.dayOfWeek = some (.ofList last) := by
  unfold ofWords? at h
  split at h
  · rename_i mi h' dom mo dow
    obtain rfl := Option.some.inj h
    exact ⟨[mi, h', dom, mo], dow, rfl, rfl, rfl⟩
  · rename_i s' mi h' dom mo dow
    obtain rfl := Option.some.inj h
    exact ⟨[s', mi, h', dom, mo], dow, rfl, rfl, rfl⟩
  · cases h

theorem given_of_ofWords? {ws : List (List Char)} {s : Schedule} (h : ofWords? ws = some s) :
    s.given = ws.map String.ofList := by
  obtain ⟨front, last, rfl, hfront, hlast⟩ := ofWords?_eq_some h
  rw [given_eq_append, hfront, hlast, List.map_append]
  rfl

end Schedule
end RetentionJobs.Cron
