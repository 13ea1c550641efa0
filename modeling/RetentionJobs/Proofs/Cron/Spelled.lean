import Mathlib.Data.List.Forall2
import RetentionJobs.Proofs.Cron.Continuation
import RetentionJobs.Proofs.Text.Words
/-! The texts of items, with numbers in every spelling that the grammar reads. A field of a text
without gaps takes the text of a list of items off the front, and it takes every such text that what
follows does not go on with. -/
namespace RetentionJobs.Cron
open RetentionJobs.Text Grammar

/-- A number that the grammar can hold. -/
def IsOrdinal (n : Nat) : Prop := n ≤ 4294967295

instance (n : Nat) : Decidable (IsOrdinal n) := inferInstanceAs (Decidable (n ≤ _))

/-- A non-empty run of letters. -/
def IsName (x : String) : Prop := x.toList ≠ [] ∧ ∀ c ∈ x.toList, c.isAlpha

/-- The digits of a number that the grammar can hold, perhaps with zeros in front. -/
def IsNumeral (n : Nat) (cs : List Char) : Prop := readDigits? cs = some n ∧ IsOrdinal n

/-- The texts of a set of values. -/
inductive Spec.Spelled (f : Field) : Spec → List Char → Prop
  | unspecified (h : f.allowsUnspecified) : Spec.Spelled f .unspecified ['?']
  | every : Spec.Spelled f .every ['*']
  | value {n : Nat} {cs : List Char} (hn : IsNumeral n cs) : Spec.Spelled f (.value n) cs
  | range {a b : Nat} {cs ds : List Char} (ha : IsNumeral a cs) (hb : IsNumeral b ds) :
    Spec.Spelled f (.range a b) (cs ++ '-' :: ds)
  | named {x y : String} (hx : IsName x) (hy : IsName y) :
    Spec.Spelled f (.named x y) (x.toList ++ '-' :: y.toList)

/-- The texts of an item. -/
inductive Item.Spelled (f : Field) : Item → List Char → Prop
  | set {s : Spec} {cs : List Char} (hs : s.Spelled f cs) : Item.Spelled f (.set s) cs
  | stepped {s : Spec} {n : Nat} {cs ds : List Char} (hs : s.Spelled f cs) (hn : IsNumeral n ds) :
    Item.Spelled f (.stepped s n) (cs ++ '/' :: ds)
  | name {x : String} (hx : IsName x) : Item.Spelled f (.name x) x.toList

/-- The texts of a list of items, with commas in between. -/
def SpelledList (f : Field) (items : List Item) (cs : List Char) : Prop :=
  List.Forall₂ (Item.Spelled f) items (cut (· == ',') cs)

section
variable {f : Field} {n : Nat} {x : String} {s : Spec} {i : Item} {cs : List Char}

theorem IsNumeral.spec (h : IsNumeral n cs) : cs ≠ [] ∧ ∀ c ∈ cs, c.isDigit :=
  isDigit_of_readDigits? h.1

/-- The characters of a set of values. -/
theorem Spec.Spelled.mem (h : s.Spelled f cs) {c : Char} (hc : c ∈ cs) :
    c.isDigit ∨ c.isAlpha ∨ c = '*' ∨ c = '?' ∨ c = '-' := by
  cases h with
  | unspecified _ => simp_all
  | every => simp_all
  | value hn => exact .inl (hn.spec.2 c hc)
  | range ha hb =>
    obtain hc | hc := List.mem_append.mp hc
    · exact .inl (ha.spec.2 c hc)
    · obtain rfl | hc := List.mem_cons.mp hc
      · simp
      · exact .inl (hb.spec.2 c hc)
  | named hx hy =>
    obtain hc | hc := List.mem_append.mp hc
    · exact .inr (.inl (hx.2 c hc))
    · obtain rfl | hc := List.mem_cons.mp hc
      · simp
      · exact .inr (.inl (hy.2 c hc))

theorem Spec.Spelled.slash_not_mem (h : s.Spelled f cs) : '/' ∉ cs := by
  intro hc
  simpa using h.mem hc

theorem Spec.Spelled.ne_nil (h : s.Spelled f cs) : cs ≠ [] := by
  cases h with
  | value hn => exact hn.spec.1
  | _ => simp

theorem Spec.Spelled.gapFree (h : s.Spelled f cs) : GapFree cs := by
  intro c hc
  obtain hdigit | halpha | rfl | rfl | rfl := h.mem hc
  · exact isGap_eq_false_of_run (.inl rfl) hdigit
  · exact isGap_eq_false_of_run (.inr rfl) halpha
  all_goals rfl

theorem Item.Spelled.ne_nil (h : i.Spelled f cs) : cs ≠ [] := by
  cases h with
  | set hs => exact hs.ne_nil
  | stepped hs hn => simp
  | name hx => exact hx.1

/-- No gap stands in the text of an item. -/
theorem Item.Spelled.gapFree (h : i.Spelled f cs) : GapFree cs := by
  cases h with
  | set hs => exact hs.gapFree
  | stepped hs hn =>
    intro c hc
    obtain hc | hc := List.mem_append.mp hc
    · exact hs.gapFree c hc
    · obtain rfl | hc := List.mem_cons.mp hc
      · rfl
      · exact isGap_eq_false_of_run (.inl rfl) (hn.spec.2 c hc)
  | name hx => exact fun c hc => isGap_eq_false_of_run (.inr rfl) (hx.2 c hc)

theorem Item.Spelled.comma_not_mem (h : i.Spelled f cs) : ',' ∉ cs := by
  intro hc
  cases h with
  | set hs => simpa using hs.mem hc
  | stepped hs hn =>
    obtain hc | hc := List.mem_append.mp hc
    · simpa using hs.mem hc
    · obtain hc | hc := List.mem_cons.mp hc
      · simp at hc
      · simpa using hn.spec.2 _ hc
  | name hx => simpa using hx.2 _ hc

end

namespace Grammar

section
variable {α β γ : Type} {p : Reader α} {q : Reader β} {R : α → List Char → Prop}
  {T : β → List Char → Prop}

/-- What `p` takes off a text without gaps is a text of what it reads. -/
def Spells (R : α → List Char → Prop) (p : Reader α) : Prop :=
  ∀ cs a rest, GapFree cs → p cs = some (a, rest) → ∃ front, cs = front ++ rest ∧ R a front

theorem Spells.either {q : Reader α} (hp : Spells R p) (hq : Spells R q) :
    Spells R (either p q) := by
  intro cs a rest hfree h
  cases hpcs : p cs with
  | none => exact hq cs a rest hfree (by simpa [Grammar.either, hpcs] using h)
  | some r => exact hp cs a rest hfree (by simpa [Grammar.either, hpcs] using h)

theorem Spells.map {f : α → β} (hp : Spells R p) (hR : ∀ a front, R a front → T (f a) front) :
    Spells T (fun cs => (p cs).map fun r => (f r.1, r.2)) := by
  intro cs b rest hfree h
  simp only [Option.map_eq_some_iff, Prod.exists, Prod.mk.injEq] at h
  obtain ⟨a, _, h, rfl, rfl⟩ := h
  obtain ⟨front, hcs, ha⟩ := hp cs a _ hfree h
  exact ⟨front, hcs, hR a front ha⟩

theorem Spells.linked {c : Char} {make : α → β → γ} {S : γ → List Char → Prop} (hp : Spells R p)
    (hq : Spells T q) (hS : ∀ a b left right, R a left → T b right →
      S (make a b) (left ++ c :: right)) : Spells S (linked p c q make) := by
  intro cs x rest hfree h
  obtain ⟨a, middle, b, ha, hb, rfl⟩ := linked_eq_some_iff.mp h
  obtain ⟨left, rfl, hleft⟩ := hp cs a _ hfree ha
  have hmiddle : GapFree middle := fun d hd => hfree d (by simp [hd])
  obtain ⟨right, rfl, hright⟩ := hq middle b rest hmiddle hb
  exact ⟨left ++ c :: right, by simp, hS a b left right hleft hright⟩

theorem Spells.char (c : Char) : Spells (fun _ front => front = [c]) (char c) := by
  intro cs _ rest _ h
  exact ⟨[c], char_eq_some_iff.mp h, rfl⟩

/-- Without gaps a text is a longest run and the rest. -/
theorem GapFree.append_run {cs : List Char} (h : GapFree cs) (p : Char → Bool) :
    cs = (skipGap cs).takeWhile p ++ skipGap ((skipGap cs).dropWhile p) := by
  have hdrop : GapFree (cs.dropWhile p) := fun c hc => h c ((List.dropWhile_sublist p).mem hc)
  rw [h.skipGap_eq, hdrop.skipGap_eq, List.takeWhile_append_dropWhile]

theorem Spells.ordinal : Spells IsNumeral ordinal := by
  intro cs n rest hfree h
  have hcs := hfree.append_run Char.isDigit
  simp only [Grammar.ordinal] at h
  split at h
  · simp at h
  · rename_i hread
    split at h
    · rename_i hle
      obtain ⟨rfl, rfl⟩ := Prod.mk.inj (Option.some.inj h)
      exact ⟨_, hcs, hread, hle⟩
    · simp at h

theorem Spells.name : Spells (fun x front => IsName x ∧ front = x.toList) name := by
  intro cs x rest hfree h
  have hcs := hfree.append_run Char.isAlpha
  simp only [Grammar.name] at h
  split at h
  · simp at h
  · rename_i hne
    obtain ⟨rfl, rfl⟩ := Prod.mk.inj (Option.some.inj h)
    refine ⟨_, hcs, ⟨by simpa using hne, fun c hc => ?_⟩, by simp⟩
    rw [String.toList_ofList] at hc
    exact List.mem_takeWhile_imp hc

theorem Spells.spec (f : Field) : Spells (Spec.Spelled f) (spec f) := by
  have hevery : Spells (Spec.Spelled f) every :=
    (Spells.char '*').map (f := fun _ => Spec.every) fun _ _ h => h ▸ .every
  have hrange : Spells (Spec.Spelled f) (pair Grammar.ordinal Spec.range) := by
    rw [pair_eq_linked]
    exact Spells.ordinal.linked Spells.ordinal fun _ _ _ _ => .range
  have hvalue : Spells (Spec.Spelled f) value := Spells.ordinal.map fun _ _ => .value
  have hnamed : Spells (Spec.Spelled f) (pair Grammar.name Spec.named) := by
    rw [pair_eq_linked]
    refine Spells.name.linked Spells.name ?_
    rintro x y _ _ ⟨hx, rfl⟩ ⟨hy, rfl⟩
    exact .named hx hy
  have hcommon := hevery.either (hrange.either (hvalue.either hnamed))
  unfold Grammar.spec
  split
  · rename_i hallows
    have hunspecified : Spells (Spec.Spelled f) unspecified :=
      (Spells.char '?').map (f := fun _ => Spec.unspecified) fun _ _ h => h ▸ .unspecified hallows
    exact hunspecified.either hcommon
  · exact hcommon

theorem Spells.item (f : Field) : Spells (Item.Spelled f) (item f) := by
  have hstepped : Spells (Item.Spelled f) (stepped f) := by
    rw [stepped_eq_linked]
    exact (Spells.spec f).linked Spells.ordinal fun _ _ _ _ => .stepped
  have hname : Spells (Item.Spelled f) fun cs => (Grammar.name cs).map fun r => (.name r.1, r.2) :=
    Spells.name.map fun _ _ ⟨hx, hfront⟩ => hfront ▸ .name hx
  exact hstepped.either (((Spells.spec f).map fun _ _ => .set).either hname)

end

theorem spells_moreItems (f : Field) (fuel : Nat) {cs : List Char} (hfree : GapFree cs) :
    ∃ texts, cs = more texts ++ (moreItems f fuel cs).2 ∧
      List.Forall₂ (Item.Spelled f) (moreItems f fuel cs).1 texts := by
  induction fuel generalizing cs with
  | zero => exact ⟨[], rfl, .nil⟩
  | succ fuel ih =>
    unfold moreItems
    split
    · rename_i after
      have hafter : GapFree after := fun c hc => hfree c (List.mem_cons_of_mem _ hc)
      cases hitem : item f after with
      | none => exact ⟨[], rfl, .nil⟩
      | some r =>
        obtain ⟨i, rest⟩ := r
        obtain ⟨text, rfl, htext⟩ := Spells.item f after i rest hafter hitem
        obtain ⟨texts, hrest, htexts⟩ := ih hafter.of_append_right
        refine ⟨text :: texts, ?_, .cons htext htexts⟩
        calc ',' :: (text ++ rest)
            = ',' :: (text ++ (more texts ++ (moreItems f fuel rest).2)) := by rw [← hrest]
          _ = _ := by simp [more]
    · exact ⟨[], rfl, .nil⟩

/-- The texts of items hold no commas, so that a cut gives them back. -/
theorem spelledList_join {f : Field} {items : List Item} {texts : List (List Char)}
    (hne : texts ≠ []) (h : List.Forall₂ (Item.Spelled f) items texts) :
    SpelledList f items (join [','] texts) := by
  have hcomma : ∀ text ∈ texts, ',' ∉ text := by
    have hany : List.Forall₂ (fun text _ => ',' ∉ text ∧ True) texts items :=
      h.flip.imp fun _ _ hi => ⟨hi.comma_not_mem, trivial⟩
    exact ((List.forall₂_and_left _ _).mp hany).1
  unfold SpelledList
  rwa [cut_join hne hcomma]

/-- A field takes the text of its items off the front. -/
theorem spells_field (f : Field) {cs rest : List Char} {items : List Item} (hfree : GapFree cs)
    (h : field f cs = some (items, rest)) :
    ∃ front, cs = front ++ rest ∧ SpelledList f items front ∧ EndsRun front rest := by
  obtain ⟨front, hcs, hlaw⟩ := Takes.field frontLaw_separated f cs items rest h
  refine ⟨front, hcs, ?_, (hlaw (hcs ▸ hfree)).2⟩
  unfold field at h
  rw [hfree.skipGap_eq] at h
  split at h
  · simp at h
  · rename_i i middle hitem
    obtain ⟨rfl, rfl⟩ := Prod.mk.inj (Option.some.inj h)
    obtain ⟨text, rfl, htext⟩ := Spells.item f cs i middle hfree hitem
    have hmiddle : GapFree middle := hfree.of_append_right
    obtain ⟨texts, hmore, htexts⟩ := spells_moreItems f middle.length hmiddle
    generalize (moreItems f middle.length middle).2 = last at hmore hcs
    have hlast : GapFree last := (hmore ▸ hmiddle).of_append_right
    rw [hlast.skipGap_eq] at hcs
    have hfront : front = join [','] (text :: texts) := by
      rw [join_cons_more]
      refine (List.append_left_inj last).mp ?_
      rw [← hcs, List.append_assoc, ← hmore]
    rw [hfront]
    exact spelledList_join (List.cons_ne_nil text texts) (.cons htext htexts)

/-- The front of a text is not `c`. -/
theorem char_eq_none {c : Char} {cs : List Char} (h : c ∉ cs.head?) : char c cs = none := by
  cases cs with
  | nil => rfl
  | cons d cs =>
    have hd : d ≠ c := by simpa using h
    simp [char, hd]

section
variable {α : Type} {p q : Reader α} {cs : List Char}

theorem either_of_some {r : α × List Char} (h : p cs = some r) : either p q cs = some r := by
  simp [either, h]

theorem either_of_none (h : p cs = none) : either p q cs = q cs := by
  simp [either, h]

theorem linked_of_none {β γ : Type} {c : Char} {r : Reader β} {make : α → β → γ}
    (h : p cs = none) : linked p c r make cs = none := by
  simp [linked, h]

theorem linked_of_char {β γ : Type} {c : Char} {r : Reader β} {make : α → β → γ} {a : α}
    {rest : List Char} (h : p cs = some (a, rest)) (hc : c ∉ rest.head?) :
    linked p c r make cs = none := by
  simp [linked, h, char_eq_none hc]

end

/-- What follows a front neither goes on with the run that the front ends in nor begins with a
gap. -/
structure Halts (front rest : List Char) : Prop where
  ends : EndsRun front rest
  gap : ∀ c ∈ rest.head?, isGap c = false

section Halts
variable {front back rest : List Char}

theorem isGap_eq_false_of_isLink {c : Char} (hc : isLink c) : isGap c = false := by
  by_contra hgap
  simp [isLink_eq_false_of_isGap ((Bool.not_eq_false _).mp hgap)] at hc

theorem halts_link (c : Char) (hc : isLink c) (rest : List Char) : Halts front (c :: rest) where
  ends := by
    intro d _ e he hrun
    obtain rfl : c = e := by simpa using he
    obtain ⟨_, hrun⟩ | ⟨_, hrun⟩ := hrun
    · simp [isLink_eq_false_of_run (.inl rfl) hrun] at hc
    · simp [isLink_eq_false_of_run (.inr rfl) hrun] at hc
  gap := by
    intro d hd
    obtain rfl : c = d := by simpa using hd
    exact isGap_eq_false_of_isLink hc

theorem halts_nil : Halts front [] where
  ends := by simp [EndsRun]
  gap := by simp

/-- Only the end of a front counts. -/
theorem Halts.of_append (h : Halts (front ++ back) rest) : Halts back rest where
  ends := by
    cases hback : back.getLast? with
    | none => simp [EndsRun, hback]
    | some c =>
      have hne : back ≠ [] := by
        rintro rfl
        simp at hback
      have hends := h.ends
      unfold EndsRun at hends ⊢
      rwa [List.getLast?_append_of_ne_nil front hne] at hends
  gap := h.gap

/-- A text that begins with a link may stand in front of the rest. -/
theorem Halts.append (h : Halts (front ++ back) rest) (hback : ∀ c ∈ back.head?, isLink c) :
    Halts front (back ++ rest) := by
  cases back with
  | nil => simpa using h
  | cons c back => exact halts_link c (hback c rfl) (back ++ rest)

theorem Halts.skipGap_eq (h : Halts front rest) : skipGap rest = rest := skipGap_eq_self h.gap

variable {p : Char → Bool} {run : List Char} (hrun : ∀ c ∈ run, p c) (hne : run ≠ [])
include hrun hne

theorem exists_head_run (rest : List Char) : ∃ c ∈ (run ++ rest).head?, p c := by
  obtain ⟨c, cs, rfl⟩ := List.exists_cons_of_ne_nil hne
  exact ⟨c, rfl, hrun c List.mem_cons_self⟩

variable (hp : p = Char.isDigit ∨ p = Char.isAlpha)
include hp

theorem skipGap_run_append (rest : List Char) : skipGap (run ++ rest) = run ++ rest := by
  refine skipGap_eq_self fun c hc => ?_
  obtain ⟨d, hd, hpd⟩ := exists_head_run hrun hne rest
  obtain rfl : d = c := Option.mem_unique hd hc
  exact isGap_eq_false_of_run hp hpd

/-- A run ends where the rest does not go on with it. -/
theorem Halts.cut_run (h : Halts run rest) :
    (run ++ rest).takeWhile p = run ∧ (run ++ rest).dropWhile p = rest := by
  refine Text.cut_run hrun fun d hd => ?_
  have hlast := List.getLast?_eq_some_getLast hne
  have hmem := hrun _ (List.mem_of_getLast? hlast)
  by_contra hpd
  refine h.ends _ hlast d hd ?_
  obtain rfl | rfl := hp
  · exact .inl ⟨hmem, (Bool.not_eq_false _).mp hpd⟩
  · exact .inr ⟨hmem, (Bool.not_eq_false _).mp hpd⟩

end Halts

section
variable {n : Nat} {x : String} {s : Spec} {i : Item} {cs rest : List Char}

theorem ordinal_numeral (hn : IsNumeral n cs) (h : Halts cs rest) :
    ordinal (cs ++ rest) = some (n, rest) := by
  obtain ⟨hne, hrun⟩ := hn.spec
  obtain ⟨htake, hdrop⟩ := h.cut_run hrun hne (.inl rfl)
  unfold ordinal
  rw [skipGap_run_append hrun hne (.inl rfl)]
  simp only [htake, hdrop, hn.1, h.skipGap_eq]
  exact if_pos hn.2

theorem name_letters (hx : IsName x) (h : Halts x.toList rest) :
    name (x.toList ++ rest) = some (x, rest) := by
  obtain ⟨htake, hdrop⟩ := h.cut_run hx.2 hx.1 (.inr rfl)
  unfold name
  rw [skipGap_run_append hx.2 hx.1 (.inr rfl)]
  simp only [htake, hdrop, h.skipGap_eq]
  split
  · exact absurd ‹_› hx.1
  · rw [String.ofList_toList]

theorem ordinal_eq_none {c : Char} {cs : List Char} (hgap : isGap c = false)
    (hdigit : c.isDigit = false) : ordinal (c :: cs) = none := by
  simp [ordinal, skipGap, hgap, hdigit, readDigits?]

/-- The readers of a set of values that begins with neither a star nor a question mark. -/
def valueSpec : Reader Spec := either (pair ordinal .range) (either value (pair name .named))

theorem spec_eq_valueSpec (f : Field) (hstar : '*' ∉ cs.head?) (hquestion : '?' ∉ cs.head?) :
    spec f cs = valueSpec cs := by
  have hevery : every cs = none := by simp [every, char_eq_none hstar]
  have hunspecified : unspecified cs = none := by simp [unspecified, char_eq_none hquestion]
  unfold spec
  split
  · exact (either_of_none hunspecified).trans (either_of_none hevery)
  · exact either_of_none hevery

theorem spec_of_digit (f : Field) (h : ∃ c ∈ cs.head?, c.isDigit) : spec f cs = valueSpec cs := by
  obtain ⟨c, hc, hdigit⟩ := h
  have hnot : ∀ d : Char, d.isDigit = false → d ∉ cs.head? := by
    intro d hd hmem
    simp [Option.mem_unique hmem hc, hdigit] at hd
  exact spec_eq_valueSpec f (hnot _ rfl) (hnot _ rfl)

/-- Only a range of names begins with a letter. -/
theorem spec_of_alpha (f : Field) (h : ∃ c ∈ cs.head?, c.isAlpha) :
    spec f cs = pair name .named cs := by
  obtain ⟨c, hc, halpha⟩ := h
  have hnot : ∀ d : Char, d.isAlpha = false → d ∉ cs.head? := by
    intro d hd hmem
    simp [Option.mem_unique hmem hc, halpha] at hd
  have hordinal : ordinal cs = none := by
    cases cs with
    | nil => simp at hc
    | cons d cs =>
      obtain rfl : d = c := by simpa using hc
      exact ordinal_eq_none (isGap_eq_false_of_run (.inr rfl) halpha)
        (isDigit_eq_false_of_isAlpha halpha)
  have hrange : pair ordinal Spec.range cs = none := linked_of_none hordinal
  have hvalue : value cs = none := by simp [value, hordinal]
  rw [spec_eq_valueSpec f (hnot _ rfl) (hnot _ rfl)]
  exact (either_of_none hrange).trans (either_of_none hvalue)

/-- A set of values is read from its text, up to a rest that does not go on with it. -/
theorem spec_spelled {f : Field} (hs : s.Spelled f cs) (h : Halts cs rest)
    (hdash : '-' ∉ rest.head?) : spec f (cs ++ rest) = some (s, rest) := by
  have hdigit : ∀ {n ds}, IsNumeral n ds → ∀ after, ∃ c ∈ (ds ++ after).head?, c.isDigit :=
    fun hn => exists_head_run hn.spec.2 hn.spec.1
  cases hs with
  | unspecified hallows =>
    have hunspecified : unspecified ('?' :: rest) = some (.unspecified, rest) := rfl
    rw [List.singleton_append, spec, if_pos hallows]
    exact either_of_some hunspecified
  | every =>
    have hevery : every ('*' :: rest) = some (.every, rest) := rfl
    have hunspecified : unspecified ('*' :: rest) = none := rfl
    rw [List.singleton_append, spec]
    split
    · exact (either_of_none hunspecified).trans (either_of_some hevery)
    · exact either_of_some hevery
  | @value n cs hn =>
    have hread := ordinal_numeral hn h
    have hvalue : value (cs ++ rest) = some (.value n, rest) := by simp [value, hread]
    rw [spec_of_digit f (hdigit hn rest)]
    exact (either_of_none (linked_of_char hread hdash)).trans (either_of_some hvalue)
  | @range a b cs ds ha hb =>
    have hlast : Halts ds rest := (List.append_cons cs '-' ds ▸ h).of_append
    have hfirst := ordinal_numeral ha (halts_link '-' rfl (ds ++ rest))
    rw [List.append_assoc, List.cons_append, spec_of_digit f (hdigit ha _)]
    exact either_of_some (linked_eq_some_iff.mpr ⟨a, _, b, hfirst, ordinal_numeral hb hlast, rfl⟩)
  | @named x y hx hy =>
    have hlast : Halts y.toList rest := (List.append_cons x.toList '-' y.toList ▸ h).of_append
    have hfirst := name_letters hx (halts_link '-' rfl (y.toList ++ rest))
    have halpha := exists_head_run hx.2 hx.1 ('-' :: (y.toList ++ rest))
    rw [List.append_assoc, List.cons_append, spec_of_alpha f halpha]
    exact linked_eq_some_iff.mpr ⟨x, _, y, hfirst, name_letters hy hlast, rfl⟩

/-- An item is read from its text, up to a rest that does not go on with it. -/
theorem item_spelled {f : Field} (hi : i.Spelled f cs) (h : Halts cs rest)
    (hdash : '-' ∉ rest.head?) (hslash : '/' ∉ rest.head?) :
    item f (cs ++ rest) = some (i, rest) := by
  cases hi with
  | set hs =>
    have hspec := spec_spelled hs h hdash
    have hstepped : stepped f (cs ++ rest) = none := linked_of_char hspec hslash
    exact (either_of_none hstepped).trans (either_of_some (by simp [hspec]))
  | @stepped s n cs ds hs hn =>
    have hlast : Halts ds rest := (List.append_cons cs '/' ds ▸ h).of_append
    have hspec := spec_spelled hs (halts_link '/' rfl (ds ++ rest)) (by simp)
    rw [List.append_assoc, List.cons_append]
    exact either_of_some (linked_eq_some_iff.mpr ⟨s, _, n, hspec, ordinal_numeral hn hlast, rfl⟩)
  | @name x hx =>
    -- the first alternatives start on the name as on a range of names, and miss the hyphen
    have hname := name_letters hx h
    have hspec : spec f (x.toList ++ rest) = none := by
      rw [spec_of_alpha f (exists_head_run hx.2 hx.1 rest)]
      exact linked_of_char hname hdash
    have hstepped : stepped f (x.toList ++ rest) = none := linked_of_none hspec
    exact (either_of_none hstepped).trans
      ((either_of_none (by simp [hspec])).trans (by simp [hname]))

end

section
variable {f : Field} {items : List Item} {rest : List Char}

theorem head_more (texts : List (List Char)) : ∀ c ∈ (more texts).head?, c = ',' := by
  intro c hc
  cases texts with
  | nil => simp [more] at hc
  | cons text texts => simpa [more] using hc.symm

/-- The first of some items is read from their text, and what is left is the text of the others. -/
theorem item_more {i : Item} {text : List Char} {texts : List (List Char)} (hi : i.Spelled f text)
    (h : Halts (text ++ more texts) rest) (hrest : ∀ c ∈ rest.head?, isLink c = false) :
    item f (text ++ (more texts ++ rest)) = some (i, more texts ++ rest) := by
  have hnot : ∀ c, isLink c → c ≠ ',' → c ∉ (more texts ++ rest).head? := by
    intro c hc hne hmem
    cases hmore : more texts with
    | nil =>
      rw [hmore, List.nil_append] at hmem
      simp [hrest c hmem] at hc
    | cons d front =>
      obtain rfl : d = c := by simpa [hmore] using hmem
      exact hne (head_more texts d (by simp [hmore]))
  refine item_spelled hi (h.append fun c hc => ?_) (hnot _ rfl (by decide)) (hnot _ rfl (by decide))
  rw [head_more texts c hc]
  rfl

theorem moreItems_spelled {texts : List (List Char)} (h : List.Forall₂ (Item.Spelled f) items texts)
    (hends : Halts (more texts) rest) (hrest : ∀ c ∈ rest.head?, isLink c = false) {fuel : Nat}
    (hfuel : texts.length ≤ fuel) : moreItems f fuel (more texts ++ rest) = (items, rest) := by
  induction h generalizing fuel with
  | nil =>
    refine moreItems_of_char (char_eq_none fun hcomma => ?_) fuel
    exact absurd (hrest ',' hcomma) (by decide)
  | @cons i text items texts hi _ ih =>
    obtain _ | fuel := fuel
    · simp at hfuel
    have hmore : more (text :: texts) = ',' :: (text ++ more texts) := rfl
    have hends : Halts ([','] ++ (text ++ more texts)) rest := hends
    have htail := hends.of_append
    have hitem := item_more hi htail hrest
    have ih := ih htail.of_append (Nat.le_of_succ_le_succ hfuel)
    simp [hmore, moreItems, hitem, ih]

theorem length_le_more (texts : List (List Char)) : texts.length ≤ (more texts).length := by
  unfold more
  induction texts with
  | nil => simp
  | cons text texts ih =>
    simp only [List.flatMap_cons, List.length_append, List.length_cons]
    omega

/-- A list of items is read from its text, up to a rest that does not go on with it. -/
theorem field_spelled {cs : List Char} (h : SpelledList f items cs)
    (hgap : ∀ c ∈ cs.head?, isGap c = false) (hends : Halts cs rest)
    (hrest : ∀ c ∈ rest.head?, isLink c = false) : field f (cs ++ rest) = some (items, rest) := by
  have hjoin := join_cut ',' cs
  unfold SpelledList at h
  generalize hcut : cut (· == ',') cs = texts at h hjoin
  cases h with
  | nil => exact absurd hcut (cut_ne_nil _ cs)
  | @cons i text items texts hi htexts =>
    rw [join_cons_more] at hjoin
    subst hjoin
    obtain ⟨c, front, rfl⟩ := List.exists_cons_of_ne_nil hi.ne_nil
    have hitem := item_more hi hends hrest
    have hfuel : texts.length ≤ (more texts ++ rest).length := by
      have := length_le_more texts
      simp only [List.length_append]
      omega
    have hmore := moreItems_spelled htexts hends.of_append hrest hfuel
    have hskip : skipGap (c :: front ++ (more texts ++ rest)) = c :: front ++ (more texts ++ rest) :=
      skipGap_eq_self hgap
    unfold field
    rw [List.append_assoc, hskip, hitem]
    simp only [hmore, hends.skipGap_eq]

end
end Grammar
end RetentionJobs.Cron
