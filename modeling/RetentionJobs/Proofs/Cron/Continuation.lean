import RetentionJobs.Proofs.Cron.Separation
/-! Reading a word with a gap and more text behind it. A reader that takes the word alone makes the
same choices there, and stops at the same place or at the gap. -/
namespace RetentionJobs.Cron.Grammar
open RetentionJobs.Text

/-- A non-empty text without gaps that does not end in a link. -/
structure Complete (cs : List Char) : Prop where
  ne_nil : cs ≠ []
  gapFree : GapFree cs
  last : ∀ c ∈ cs.getLast?, isLink c = false

theorem Separated.complete {cs : List Char} (h : Separated cs) (hfree : GapFree cs) :
    Complete cs := ⟨h.ne_nil, hfree, h.last⟩

theorem Complete.of_append {front rest : List Char} (h : Complete (front ++ rest))
    (hrest : rest ≠ []) : Complete rest :=
  ⟨hrest, h.gapFree.of_append_right, by
    simpa only [List.getLast?_append_of_ne_nil front hrest] using h.last⟩

/-- There is text behind a link. -/
theorem Complete.of_cons {c : Char} {cs : List Char} (h : Complete (c :: cs)) (hc : isLink c) :
    Complete cs := by
  have hcs : cs ≠ [] := by
    rintro rfl
    simpa [hc] using h.last c rfl
  exact Complete.of_append (show Complete ([c] ++ cs) from h) hcs

/-- What follows a gap: a text that begins with neither a gap nor a link. -/
def Fresh (more : List Char) : Prop := ∃ c ∈ more.head?, isGap c = false ∧ isLink c = false

variable {more : List Char}

/-- The rest of a text with `more` behind it, given the rest of the text alone. A gap in between may
be taken off already. -/
def Continues (more rest rest' : List Char) : Prop :=
  rest' = rest ++ ' ' :: more ∨ (rest = [] ∧ rest' = more)

/-- The two runs read the same, or both fail. -/
inductive Agrees {α : Type} (more : List Char) :
    Option (α × List Char) → Option (α × List Char) → Prop
  | none : Agrees more none none
  | some (a : α) {rest rest' : List Char} (h : Continues more rest rest') :
    Agrees more (some (a, rest)) (some (a, rest'))

/-- Reading a complete text is not disturbed by a gap and more text behind it. -/
def Steady {α : Type} (more : List Char) (p : Reader α) : Prop :=
  ∀ cs, Complete cs → Agrees more (p cs) (p (cs ++ ' ' :: more))

theorem Fresh.skipGap_eq (h : Fresh more) : skipGap more = more := by
  obtain ⟨c, hc, hgap, _⟩ := h
  exact skipGap_eq_self fun d hd => Option.mem_unique hc hd ▸ hgap

theorem GapFree.skipGap_eq {cs : List Char} (h : GapFree cs) : skipGap cs = cs :=
  skipGap_eq_self fun c hc => h c (List.mem_of_mem_head? hc)

theorem Continues.skipGap_eq {rest rest' : List Char} (hmore : Fresh more) (hfree : GapFree rest)
    (h : Continues more rest rest') :
    skipGap rest' = if rest = [] then more else rest ++ ' ' :: more := by
  have hgap : skipGap (' ' :: more) = skipGap more := rfl
  obtain rfl | ⟨rfl, rfl⟩ := h
  · cases rest with
    | nil => rw [List.nil_append, hgap, hmore.skipGap_eq, if_pos rfl]
    | cons c cs =>
      rw [if_neg (List.cons_ne_nil c cs)]
      exact skipGap_eq_self fun d hd => hfree d (by simp_all)
  · rw [hmore.skipGap_eq, if_pos rfl]

theorem continues_skipGap {rest : List Char} (hmore : Fresh more) (hfree : GapFree rest) :
    Continues more (skipGap rest) (skipGap (rest ++ ' ' :: more)) := by
  rw [hfree.skipGap_eq, Continues.skipGap_eq hmore hfree (.inl rfl)]
  split
  · exact .inr ⟨‹_›, rfl⟩
  · exact .inl rfl

/-- A link stands at the front of both rests or of neither. -/
theorem char_continues {c : Char} {rest rest' : List Char} (hmore : Fresh more) (hc : isLink c)
    (h : Continues more rest rest') :
    (char c rest = none ∧ char c rest' = none) ∨
      ∃ after, rest = c :: after ∧ rest' = c :: (after ++ ' ' :: more) := by
  have hspace : ' ' ≠ c := by rintro rfl; simp [isLink] at hc
  obtain ⟨d, hd, _, hlink⟩ := hmore
  have hmore : char c more = none := by
    have hne : d ≠ c := by rintro rfl; simp [hc] at hlink
    cases more with
    | nil => rfl
    | cons e cs => simp_all [char]
  obtain rfl | ⟨rfl, rfl⟩ := h
  · cases rest with
    | nil => exact .inl ⟨rfl, by simp [char, hspace]⟩
    | cons e cs =>
      by_cases he : e = c
      · subst he
        exact .inr ⟨cs, rfl, rfl⟩
      · exact .inl ⟨by simp [char, he], by simp [char, he]⟩
  · exact .inl ⟨rfl, hmore⟩

section Steady
variable {α β γ : Type}

theorem Agrees.map {r r' : Option (α × List Char)} (h : Agrees more r r') (f : α → β) :
    Agrees more (r.map fun p => (f p.1, p.2)) (r'.map fun p => (f p.1, p.2)) := by
  cases h with
  | none => exact .none
  | some a h => exact .some (f a) h

theorem Steady.map {p : Reader α} (h : Steady more p) (f : α → β) :
    Steady more (fun cs => (p cs).map fun r => (f r.1, r.2)) :=
  fun cs hcs => (h cs hcs).map f

theorem Steady.either {p q : Reader α} (hp : Steady more p) (hq : Steady more q) :
    Steady more (either p q) := by
  intro cs hcs
  have h := hp cs hcs
  unfold Grammar.either
  generalize p cs = r, p (cs ++ ' ' :: more) = r' at h ⊢
  cases h with
  | none => exact hq cs hcs
  | some a h => exact .some a h

theorem Steady.char (c : Char) : Steady more (char c) := by
  intro cs hcs
  obtain ⟨d, cs, rfl⟩ := List.exists_cons_of_ne_nil hcs.ne_nil
  by_cases h : d = c
  · simpa [Grammar.char, h] using Agrees.some () (.inl rfl)
  · simpa [Grammar.char, h] using Agrees.none

/-- A run ends inside of the text or at the gap behind it. -/
theorem run_append_gap {p : Char → Bool} (hp : p ' ' = false) (cs more : List Char) :
    (cs ++ ' ' :: more).takeWhile p = cs.takeWhile p ∧
      (cs ++ ' ' :: more).dropWhile p = cs.dropWhile p ++ ' ' :: more := by
  induction cs with
  | nil => simp [hp]
  | cons c cs ih => cases hc : p c <;> simp [hc, ih]

theorem Complete.skipGap_append {cs : List Char} (h : Complete cs) :
    skipGap (cs ++ ' ' :: more) = skipGap cs ++ ' ' :: more := by
  obtain ⟨c, cs, rfl⟩ := List.exists_cons_of_ne_nil h.ne_nil
  have hc : isGap c = false := h.gapFree c List.mem_cons_self
  simp [skipGap, hc]

/-- What stands behind a run, without the gap. -/
theorem Complete.continues_dropWhile {cs : List Char} (h : Complete cs) (hmore : Fresh more)
    (p : Char → Bool) : Continues more (skipGap (cs.dropWhile p))
      (skipGap (cs.dropWhile p ++ ' ' :: more)) :=
  continues_skipGap hmore fun c hc => h.gapFree c ((List.dropWhile_sublist p).mem hc)

theorem steady_ordinal (hmore : Fresh more) : Steady more ordinal := by
  intro cs hcs
  obtain ⟨htake, hdrop⟩ := run_append_gap (p := Char.isDigit) (by decide) cs more
  unfold ordinal
  rw [hcs.skipGap_append, hcs.gapFree.skipGap_eq]
  simp only [htake, hdrop]
  split
  · exact .none
  · split
    · exact .some _ (hcs.continues_dropWhile hmore Char.isDigit)
    · exact .none

theorem steady_name (hmore : Fresh more) : Steady more name := by
  intro cs hcs
  obtain ⟨htake, hdrop⟩ := run_append_gap (p := Char.isAlpha) (by decide) cs more
  unfold name
  rw [hcs.skipGap_append, hcs.gapFree.skipGap_eq]
  simp only [htake, hdrop]
  split
  · exact .none
  · exact .some _ (hcs.continues_dropWhile hmore Char.isAlpha)

theorem Steady.linked (hmore : Fresh more) {p : Reader α} {q : Reader β} (hp : Steady more p)
    (hq : Steady more q) (htakes : Takes (fun _ _ => True) p) {c : Char} (hc : isLink c)
    (make : α → β → γ) : Steady more (linked p c q make) := by
  intro cs hcs
  have hagree := hp cs hcs
  have hfront := htakes cs
  unfold Grammar.linked
  generalize p cs = r, p (cs ++ ' ' :: more) = r' at hagree hfront ⊢
  cases hagree with
  | none => exact .none
  | some a hcont =>
    rename_i rest rest'
    -- the link stands in both rests or in none; behind it the text alone is complete again
    obtain ⟨front, rfl, _⟩ := hfront a rest rfl
    obtain ⟨hnone, hnone'⟩ | ⟨after, rfl, rfl⟩ := char_continues hmore hc hcont
    · simpa [hnone, hnone'] using Agrees.none
    · have hafter : Complete after := (hcs.of_append (List.cons_ne_nil c after)).of_cons hc
      have hagree := hq after hafter
      simp only [Option.bind_eq_bind, Option.bind_some, char_eq_some_iff.mpr rfl]
      generalize q after = s, q (after ++ ' ' :: more) = s' at hagree ⊢
      cases hagree with
      | none => exact .none
      | some b h => exact .some _ h

theorem Steady.pair (hmore : Fresh more) {p : Reader α} (hp : Steady more p)
    (htakes : Takes (fun _ _ => True) p) (make : α → α → β) : Steady more (pair p make) := by
  rw [pair_eq_linked]
  exact hp.linked hmore hp htakes (by decide) make

theorem frontLaw_true : FrontLaw (fun _ _ => True) where
  star _ _ _ := trivial
  run _ _ _ _ _ _ _ _ _ _ := trivial
  link _ _ _ _ _ _ _ := trivial
  gaps _ _ _ _ _ _ := trivial

theorem steady_spec (hmore : Fresh more) (f : Field) : Steady more (spec f) := by
  have hordinal := steady_ordinal hmore
  have hname := steady_name hmore
  have hrange : Steady more (pair ordinal Spec.range) :=
    hordinal.pair hmore (Takes.ordinal frontLaw_true) Spec.range
  have hnamed : Steady more (pair name Spec.named) :=
    hname.pair hmore (Takes.name frontLaw_true) Spec.named
  have hevery : Steady more every := (Steady.char '*').map fun _ => Spec.every
  have hunspecified : Steady more unspecified := (Steady.char '?').map fun _ => Spec.unspecified
  have hcommon := hevery.either (hrange.either ((hordinal.map Spec.value).either hnamed))
  unfold spec
  split
  · exact hunspecified.either hcommon
  · exact hcommon

theorem steady_item (hmore : Fresh more) (f : Field) : Steady more (item f) := by
  have hstepped : Steady more (stepped f) := by
    rw [stepped_eq_linked]
    exact (steady_spec hmore f).linked hmore (steady_ordinal hmore) (Takes.spec frontLaw_true f)
      (by decide) Item.stepped
  exact hstepped.either (((steady_spec hmore f).map Item.set).either
    ((steady_name hmore).map Item.name))

end Steady

theorem moreItems_of_char {f : Field} {cs : List Char} (h : char ',' cs = none) (fuel : Nat) :
    moreItems f fuel cs = ([], cs) := by
  cases fuel with
  | zero => rfl
  | succ fuel =>
    unfold moreItems
    split
    · simp [char] at h
    · rfl

/-- What an item leaves is empty or complete again. -/
theorem Complete.of_item {f : Field} {cs rest : List Char} {i : Item} (h : Complete cs)
    (hitem : item f cs = some (i, rest)) :
    (rest = [] ∨ Complete rest) ∧ rest.length ≤ cs.length := by
  obtain ⟨front, rfl, _⟩ := Takes.item frontLaw_true f cs i rest hitem
  refine ⟨?_, by simp⟩
  by_cases hrest : rest = []
  · exact .inl hrest
  · exact .inr (h.of_append hrest)

/-- The same further items are read, with any fuel that is enough for the text alone. -/
theorem moreItems_continues (hmore : Fresh more) (f : Field) (fuel fuel' : Nat)
    {rest rest' : List Char} (hrest : rest = [] ∨ Complete rest) (hfuel : rest.length ≤ fuel)
    (hfuel' : rest.length ≤ fuel') (h : Continues more rest rest') :
    (moreItems f fuel rest).1 = (moreItems f fuel' rest').1 ∧
      Continues more (moreItems f fuel rest).2 (moreItems f fuel' rest').2 := by
  -- on the fuel of the text alone; what the longer text has beyond it is never used
  induction fuel generalizing fuel' rest rest' with
  | zero =>
    obtain rfl : rest = [] := by simpa using hfuel
    obtain ⟨hnone, hnone'⟩ | ⟨after, hafter, _⟩ := char_continues hmore (c := ',') (by decide) h
    · rw [moreItems_of_char hnone, moreItems_of_char hnone']
      exact ⟨rfl, h⟩
    · simp at hafter
  | succ fuel ih =>
    obtain ⟨hnone, hnone'⟩ | ⟨after, rfl, rfl⟩ := char_continues hmore (c := ',') (by decide) h
    · rw [moreItems_of_char hnone, moreItems_of_char hnone']
      exact ⟨rfl, h⟩
    · have hcomplete := hrest.resolve_left (List.cons_ne_nil ',' after)
      have hafter : Complete after := hcomplete.of_cons rfl
      obtain _ | fuel' := fuel'
      · simp at hfuel'
      simp only [List.length_cons, Nat.add_le_add_iff_right] at hfuel hfuel'
      have hagree := steady_item hmore f after hafter
      have hof : ∀ i rest, item f after = some (i, rest) →
          (rest = [] ∨ Complete rest) ∧ rest.length ≤ after.length := fun _ _ => hafter.of_item
      unfold moreItems
      simp only
      generalize item f after = r, item f (after ++ ' ' :: more) = r' at hagree hof ⊢
      cases hagree with
      | none => exact ⟨rfl, h⟩
      | some i hcont =>
        obtain ⟨hrest, hlen⟩ := hof i _ rfl
        obtain ⟨hitems, hcont⟩ := ih fuel' hrest (hlen.trans hfuel) (hlen.trans hfuel') hcont
        exact ⟨congrArg (i :: ·) hitems, hcont⟩

/-- A field of a complete text is read as if nothing came after it. A gap is taken off when the
field ends there. -/
theorem field_append_gap (hmore : Fresh more) (f : Field) {cs : List Char} (hcs : Complete cs) :
    field f (cs ++ ' ' :: more) = (field f cs).map fun r =>
      (r.1, if r.2 = [] then more else r.2 ++ ' ' :: more) := by
  have hagree := steady_item hmore f cs hcs
  have hof : ∀ i rest, item f cs = some (i, rest) →
      (rest = [] ∨ Complete rest) ∧ rest.length ≤ cs.length := fun _ _ => hcs.of_item
  unfold field
  rw [hcs.skipGap_append, hcs.gapFree.skipGap_eq]
  generalize item f cs = r, item f (cs ++ ' ' :: more) = r' at hagree hof ⊢
  cases hagree with
  | none => rfl
  | some i hcont =>
    rename_i rest rest'
    obtain ⟨hrest, _⟩ := hof i rest rfl
    have hlen : rest.length ≤ rest'.length := by
      obtain rfl | ⟨rfl, _⟩ := hcont <;> simp
    obtain ⟨front, hfront, _⟩ := frontLaw_true.moreItems f rest.length [] rest trivial
    have hfree : GapFree rest := by
      obtain rfl | hrest := hrest
      · simp [GapFree]
      · exact hrest.gapFree
    obtain ⟨hitems, hcont⟩ := moreItems_continues hmore f _ _ hrest le_rfl hlen hcont
    have hlast : GapFree (moreItems f rest.length rest).2 := by
      rw [hfront] at hfree
      exact hfree.of_append_right
    have hskip := hcont.skipGap_eq hmore hlast
    simp [hitems, hskip, hlast.skipGap_eq]

end RetentionJobs.Cron.Grammar
