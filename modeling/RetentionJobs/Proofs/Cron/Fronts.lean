import Mathlib.Data.List.TakeWhile
import RetentionJobs.Cron.Grammar
/-! What the readers of the grammar take off the front of a text. A law of fronts that holds of the
smallest pieces, and that linking pieces keeps, holds of every field. -/
namespace RetentionJobs.Cron.Grammar
open RetentionJobs.Text

/-- The characters that link the parts of a field. -/
def isLink (c : Char) : Bool := c == ',' || c == '-' || c == '/'

section
variable {p : Char → Bool} (hp : p = Char.isDigit ∨ p = Char.isAlpha) {c : Char} (hc : p c)
include hp hc

theorem isGap_eq_false_of_run : isGap c = false := by
  by_contra hgap
  simp only [isGap, Bool.not_eq_false, Bool.or_eq_true, beq_iff_eq] at hgap
  obtain rfl | rfl := hp <;> obtain ((rfl | rfl) | rfl) | rfl := hgap <;> simp at hc

theorem isLink_eq_false_of_run : isLink c = false := by
  by_contra hlink
  simp only [isLink, Bool.not_eq_false, Bool.or_eq_true, beq_iff_eq] at hlink
  obtain rfl | rfl := hp <;> obtain (rfl | rfl) | rfl := hlink <;> simp at hc

end

theorem isLink_eq_false_of_isGap {c : Char} (hc : isGap c) : isLink c = false := by
  simp only [isGap, Bool.or_eq_true, beq_iff_eq] at hc
  obtain ((rfl | rfl) | rfl) | rfl := hc <;> decide

theorem skipGap_eq_self {cs : List Char} (h : ∀ c ∈ cs.head?, isGap c = false) :
    skipGap cs = cs := by
  cases cs with
  | nil => rfl
  | cons c cs => simp [skipGap, h c rfl]

theorem char_eq_some_iff {c : Char} {cs rest : List Char} :
    char c cs = some ((), rest) ↔ cs = c :: rest := by
  cases cs with
  | nil => simp [char]
  | cons d cs =>
    by_cases h : d = c <;> simp [char, h]

/-- Two readers with the character `c` between them. -/
def linked {α β γ : Type} (p : Reader α) (c : Char) (q : Reader β) (make : α → β → γ) :
    Reader γ := fun cs => do
  let (a, cs) ← p cs
  let ((), cs) ← char c cs
  let (b, cs) ← q cs
  return (make a b, cs)

theorem pair_eq_linked {α β : Type} (p : Reader α) (make : α → α → β) :
    pair p make = linked p '-' p make := rfl

theorem stepped_eq_linked (f : Field) : stepped f = linked (spec f) '/' ordinal .stepped := rfl

theorem linked_eq_some_iff {α β γ : Type} {p : Reader α} {c : Char} {q : Reader β}
    {make : α → β → γ} {cs rest : List Char} {x : γ} : linked p c q make cs = some (x, rest) ↔
      ∃ a middle b, p cs = some (a, c :: middle) ∧ q middle = some (b, rest) ∧ x = make a b := by
  simp only [linked, Option.bind_eq_bind, Option.bind_eq_some_iff, Prod.exists, Option.pure_def,
    Option.some.injEq, Prod.mk.injEq]
  constructor
  · rintro ⟨a, _, ha, _, middle, hchar, b, _, hb, rfl, rfl⟩
    obtain rfl := char_eq_some_iff.mp hchar
    exact ⟨a, middle, b, ha, hb, rfl⟩
  · rintro ⟨a, middle, b, ha, hb, rfl⟩
    exact ⟨a, _, ha, (), middle, char_eq_some_iff.mpr rfl, b, rest, hb, rfl, rfl⟩

/-- Everything that `p` takes off a text is related by `Q` to what it leaves. -/
def Takes {α : Type} (Q : List Char → List Char → Prop) (p : Reader α) : Prop :=
  ∀ cs a rest, p cs = some (a, rest) → ∃ front, cs = front ++ rest ∧ Q front rest

/-- A relation between fronts and rests that the grammar keeps: it holds of stars and of longest
runs of digits or letters, and survives links and surrounding gaps. -/
structure FrontLaw (Q : List Char → List Char → Prop) : Prop where
  star : ∀ c rest, c = '*' ∨ c = '?' → Q [c] rest
  run : ∀ p : Char → Bool, p = Char.isDigit ∨ p = Char.isAlpha → ∀ before run after rest,
    (∀ c ∈ before ++ after, isGap c) → run ≠ [] → (∀ c ∈ run, p c) →
    (∀ c ∈ (after ++ rest).head?, p c = false) → Q (before ++ run ++ after) rest
  link : ∀ c left right rest, isLink c → Q left (c :: (right ++ rest)) → Q right rest →
    Q (left ++ c :: right) rest
  gaps : ∀ before front after rest, (∀ c ∈ before ++ after, isGap c) → Q front (after ++ rest) →
    Q (before ++ front ++ after) rest

section Takes
variable {α β γ : Type} {Q : List Char → List Char → Prop}

theorem Takes.either {p q : Reader α} (hp : Takes Q p) (hq : Takes Q q) :
    Takes Q (either p q) := by
  intro cs a rest h
  cases hpcs : p cs with
  | none => exact hq cs a rest (by simpa [Grammar.either, hpcs] using h)
  | some r => exact hp cs a rest (by simpa [Grammar.either, hpcs] using h)

theorem Takes.map {p : Reader α} (hp : Takes Q p) (f : α → β) :
    Takes Q (fun cs => (p cs).map (fun r => (f r.1, r.2))) := by
  intro cs b rest h
  simp only [Option.map_eq_some_iff, Prod.exists, Prod.mk.injEq] at h
  obtain ⟨a, _, h, _, rfl⟩ := h
  exact hp cs a _ h

theorem Takes.char (law : FrontLaw Q) {c : Char} (hc : c = '*' ∨ c = '?') :
    Takes Q (char c) := by
  intro cs _ rest h
  exact ⟨[c], char_eq_some_iff.mp h, law.star c rest hc⟩

/-- A text is its leading gap, a longest run, the gap after it and the rest. -/
theorem split_run (p : Char → Bool) (cs : List Char) :
    ∃ before run after rest, cs = before ++ run ++ after ++ rest ∧
      (∀ c ∈ before ++ after, isGap c) ∧ (∀ c ∈ run, p c) ∧
      (∀ c ∈ (after ++ rest).head?, p c = false) ∧
      (skipGap cs).takeWhile p = run ∧ skipGap ((skipGap cs).dropWhile p) = rest := by
  have hrest : ∀ xs : List Char, xs.takeWhile isGap ++ skipGap xs = xs := fun _ =>
    List.takeWhile_append_dropWhile
  refine ⟨cs.takeWhile isGap, (skipGap cs).takeWhile p, ((skipGap cs).dropWhile p).takeWhile isGap,
    skipGap ((skipGap cs).dropWhile p), ?_, ?_, ?_, ?_, rfl, rfl⟩
  · rw [List.append_assoc, hrest, List.append_assoc, List.takeWhile_append_dropWhile, hrest]
  · intro c hc
    obtain hc | hc := List.mem_append.mp hc <;> exact List.mem_takeWhile_imp hc
  · exact fun c hc => List.mem_takeWhile_imp hc
  · rw [hrest]
    intro c hc
    have hhead := List.head?_dropWhile_not p (skipGap cs)
    simp_all

theorem Takes.ordinal (law : FrontLaw Q) : Takes Q ordinal := by
  intro cs n rest h
  obtain ⟨before, run, after, rest', hcs, hgaps, hrun, hmax, htake, hdrop⟩ :=
    split_run Char.isDigit cs
  simp only [Grammar.ordinal, htake, hdrop, readDigits?] at h
  split at h
  · simp at h
  · rename_i hread
    split at h
    · obtain ⟨_, rfl⟩ := Prod.mk.inj (Option.some.inj h)
      have hne : run ≠ [] := by
        rintro rfl
        simp at hread
      exact ⟨_, hcs, law.run _ (.inl rfl) before run after rest' hgaps hne hrun hmax⟩
    · simp at h

theorem Takes.name (law : FrontLaw Q) : Takes Q name := by
  intro cs x rest h
  obtain ⟨before, run, after, rest', hcs, hgaps, hrun, hmax, htake, hdrop⟩ :=
    split_run Char.isAlpha cs
  simp only [Grammar.name, htake, hdrop] at h
  split at h
  · simp at h
  · rename_i hne
    obtain ⟨_, rfl⟩ := Prod.mk.inj (Option.some.inj h)
    exact ⟨_, hcs, law.run _ (.inr rfl) before _ after rest' hgaps (fun h => hne h) hrun hmax⟩

theorem Takes.linked (law : FrontLaw Q) {p : Reader α} {q : Reader β} (hp : Takes Q p)
    (hq : Takes Q q) {c : Char} (hc : isLink c) (make : α → β → γ) :
    Takes Q (linked p c q make) := by
  intro cs x rest h
  obtain ⟨a, middle, b, ha, hb, rfl⟩ := linked_eq_some_iff.mp h
  obtain ⟨left, rfl, hleft⟩ := hp cs a _ ha
  obtain ⟨right, rfl, hright⟩ := hq middle b rest hb
  exact ⟨left ++ c :: right, by simp, law.link c left right rest hc hleft hright⟩

theorem Takes.pair (law : FrontLaw Q) {p : Reader α} (hp : Takes Q p) (make : α → α → β) :
    Takes Q (pair p make) := by
  rw [pair_eq_linked]
  exact hp.linked law hp (by decide) make

theorem Takes.spec (law : FrontLaw Q) (f : Field) : Takes Q (spec f) := by
  have hchar : ∀ {c : Char} (s : Spec), c = '*' ∨ c = '?' →
      Takes Q (fun cs => (Grammar.char c cs).map (fun r => (s, r.2))) := fun s hc =>
    (Takes.char law hc).map (fun _ => s)
  have hcommon := (hchar .every (.inl rfl)).either (((Takes.ordinal law).pair law Spec.range).either
    (((Takes.ordinal law).map Spec.value).either ((Takes.name law).pair law Spec.named)))
  unfold Grammar.spec
  split
  · exact (hchar .unspecified (.inr rfl)).either hcommon
  · exact hcommon

theorem Takes.stepped (law : FrontLaw Q) (f : Field) : Takes Q (stepped f) := by
  rw [stepped_eq_linked]
  exact (Takes.spec law f).linked law (Takes.ordinal law) (by decide) Item.stepped

theorem Takes.item (law : FrontLaw Q) (f : Field) : Takes Q (item f) :=
  (Takes.stepped law f).either
    (((Takes.spec law f).map Item.set).either ((Takes.name law).map Item.name))

/-- Further items extend a front that is lawful so far. -/
theorem FrontLaw.moreItems (law : FrontLaw Q) (f : Field) (fuel : Nat) (left cs : List Char)
    (hleft : Q left cs) :
    ∃ front, cs = front ++ (moreItems f fuel cs).2 ∧ Q (left ++ front) (moreItems f fuel cs).2 := by
  -- every item that is read becomes part of the front, so the front is not fixed
  induction fuel generalizing left cs with
  | zero => exact ⟨[], by simp [Grammar.moreItems], by simpa [Grammar.moreItems] using hleft⟩
  | succ fuel ih =>
    unfold Grammar.moreItems
    split
    · rename_i after
      cases hitem : Grammar.item f after with
      | none => exact ⟨[], by simp, by simpa using hleft⟩
      | some r =>
        obtain ⟨i, rest⟩ := r
        obtain ⟨right, rfl, hright⟩ := Takes.item law f after i rest hitem
        have hlinked := law.link ',' left right rest (by decide) hleft hright
        obtain ⟨front, hfront, hQ⟩ := ih (left ++ ',' :: right) rest hlinked
        refine ⟨',' :: (right ++ front), ?_, ?_⟩
        · simp only [List.cons_append, List.append_assoc]
          rw [← hfront]
        · simpa using hQ
    · exact ⟨[], by simp, by simpa using hleft⟩

/-- A law of fronts holds of what a field takes. -/
theorem Takes.field (law : FrontLaw Q) (f : Field) : Takes Q (field f) := by
  intro cs items rest h
  unfold Grammar.field at h
  split at h
  · simp at h
  · rename_i i middle hitem
    obtain ⟨_, rfl⟩ := Prod.mk.inj (Option.some.inj h)
    obtain ⟨first, hfirst, hQ⟩ := Takes.item law f _ i middle hitem
    obtain ⟨more, hmore, hQ⟩ := law.moreItems f middle.length first middle hQ
    generalize (Grammar.moreItems f middle.length middle).2 = last at hmore hQ
    have hgap : last.takeWhile isGap ++ skipGap last = last := List.takeWhile_append_dropWhile
    have hlead : cs.takeWhile isGap ++ skipGap cs = cs := List.takeWhile_append_dropWhile
    refine ⟨cs.takeWhile isGap ++ (first ++ more) ++ last.takeWhile isGap, ?_, ?_⟩
    · calc cs = cs.takeWhile isGap ++ (first ++ (more ++ last)) := by rw [← hmore, ← hfirst, hlead]
        _ = _ := by simp [hgap]
    · apply law.gaps
      · intro c hc
        obtain hc | hc := List.mem_append.mp hc <;> exact List.mem_takeWhile_imp hc
      · rwa [hgap]

end Takes
end RetentionJobs.Cron.Grammar
