import Mathlib.Data.List.Chain
import RetentionJobs.Proofs.Cron.Fronts
import RetentionJobs.Proofs.Text.Decimal
/-! The shape of a field without gaps: atoms with single links between them, where an atom is a run
of digits, a run of letters, a star or a question mark. What a field leaves unread of such a text
begins with a link, and no field begins with one. -/
namespace RetentionJobs.Cron.Grammar
open RetentionJobs.Text

/-- Characters that may stand side by side: a link and another one, or two of one run. -/
def Neighbours (c d : Char) : Prop :=
  isLink c ≠ isLink d ∨ (c.isDigit ∧ d.isDigit) ∨ (c.isAlpha ∧ d.isAlpha)

instance (c d : Char) : Decidable (Neighbours c d) := inferInstanceAs (Decidable (_ ∨ _))

/-- Atoms and links take turns, with an atom at both ends. -/
structure Separated (cs : List Char) : Prop where
  ne_nil : cs ≠ []
  head : ∀ c ∈ cs.head?, isLink c = false
  last : ∀ c ∈ cs.getLast?, isLink c = false
  chain : cs.IsChain Neighbours

theorem separated_iff {cs : List Char} : Separated cs ↔
    cs ≠ [] ∧ cs.head?.all (!isLink ·) ∧ cs.getLast?.all (!isLink ·) ∧ cs.IsChain Neighbours := by
  simp only [Option.all_eq_true, Bool.not_eq_true']
  exact ⟨fun h => ⟨h.ne_nil, h.head, h.last, h.chain⟩, fun ⟨hne, hhead, hlast, hchain⟩ =>
    ⟨hne, hhead, hlast, hchain⟩⟩

instance (cs : List Char) : Decidable (Separated cs) := decidable_of_iff' _ separated_iff

/-- No gap anywhere. -/
def GapFree (cs : List Char) : Prop := ∀ c ∈ cs, isGap c = false

theorem GapFree.of_append_left {cs ds : List Char} (h : GapFree (cs ++ ds)) : GapFree cs :=
  fun c hc => h c (List.mem_append_left ds hc)

theorem GapFree.of_append_right {cs ds : List Char} (h : GapFree (cs ++ ds)) : GapFree ds :=
  fun c hc => h c (List.mem_append_right cs hc)

/-- Gaps around a front are empty where there are none. -/
theorem GapFree.eq_nil_of_gaps {before front after rest : List Char}
    (h : GapFree (before ++ front ++ after ++ rest)) (hgaps : ∀ c ∈ before ++ after, isGap c) :
    before = [] ∧ after = [] := by
  have hnil : ∀ cs, GapFree cs → (∀ c ∈ cs, isGap c) → cs = [] := by
    intro cs hfree hcs
    refine List.eq_nil_iff_forall_not_mem.mpr fun c hc => ?_
    simpa [hfree c hc] using hcs c hc
  constructor
  · exact hnil before h.of_append_left.of_append_left.of_append_left
      fun c hc => hgaps c (List.mem_append_left after hc)
  · exact hnil after h.of_append_left.of_append_right
      fun c hc => hgaps c (List.mem_append_right before hc)

/-- The rest does not go on with the run that the front ends in. -/
def EndsRun (front rest : List Char) : Prop :=
  ∀ c ∈ front.getLast?, ∀ d ∈ rest.head?, ¬ ((c.isDigit ∧ d.isDigit) ∨ (c.isAlpha ∧ d.isAlpha))

theorem separated_singleton {c : Char} (hc : isLink c = false) : Separated [c] where
  ne_nil := List.cons_ne_nil c []
  head := by simpa using hc
  last := by simpa using hc
  chain := .singleton c

theorem separated_of_run {p : Char → Bool} (hp : p = Char.isDigit ∨ p = Char.isAlpha)
    {run : List Char} (hne : run ≠ []) (hrun : ∀ c ∈ run, p c) : Separated run where
  ne_nil := hne
  head c hc := isLink_eq_false_of_run hp (hrun c (List.mem_of_mem_head? hc))
  last c hc := isLink_eq_false_of_run hp (hrun c (List.mem_of_mem_getLast? hc))
  chain := by
    refine List.Pairwise.isChain (List.pairwise_of_forall_mem_list fun c hc d hd => .inr ?_)
    obtain rfl | rfl := hp
    · exact .inl ⟨hrun c hc, hrun d hd⟩
    · exact .inr ⟨hrun c hc, hrun d hd⟩

theorem Separated.link {left right : List Char} {c : Char} (hleft : Separated left)
    (hc : isLink c) (hright : Separated right) : Separated (left ++ c :: right) where
  ne_nil := by simp
  head d hd := by
    rw [List.head?_append_of_ne_nil _ hleft.ne_nil] at hd
    exact hleft.head d hd
  last d hd := by
    rw [List.getLast?_append_of_ne_nil _ (List.cons_ne_nil c right),
      List.getLast?_cons_of_ne_nil hright.ne_nil] at hd
    exact hright.last d hd
  chain := by
    refine List.isChain_append.mpr ⟨hleft.chain, ?_, ?_⟩
    · refine List.isChain_cons.mpr ⟨fun d hd => .inl ?_, hright.chain⟩
      simp [hc, hright.head d hd]
    · intro d hd e he
      obtain rfl : c = e := by simpa using he
      exact .inl (by simp [hc, hleft.last d hd])

theorem frontLaw_separated :
    FrontLaw (fun front rest =>
      GapFree (front ++ rest) → Separated front ∧ EndsRun front rest) where
  star := by
    rintro c rest hc -
    have hlink : isLink c = false := by obtain rfl | rfl := hc <;> decide
    refine ⟨separated_singleton hlink, ?_⟩
    intro d hd e _
    obtain rfl : c = d := by simpa using hd
    obtain rfl | rfl := hc <;> simp
  run := by
    intro p hp before run after rest hgaps hne hrun hmax hfree
    -- without gaps the front is the run itself, and it was taken as long as it is
    obtain ⟨rfl, rfl⟩ := hfree.eq_nil_of_gaps hgaps
    simp only [List.nil_append, List.append_nil] at hmax ⊢
    refine ⟨separated_of_run hp hne hrun, ?_⟩
    intro c hc d hd hsame
    have hpc := hrun c (List.mem_of_mem_getLast? hc)
    have hpd := hmax d hd
    obtain rfl | rfl := hp
    · simp [hpd, isAlpha_eq_false_of_isDigit hpc] at hsame
    · simp only [hpd, Bool.false_eq_true, and_false, or_false] at hsame
      simp [isAlpha_eq_false_of_isDigit hsame.1] at hpc
  link := by
    intro c left right rest hc hleft hright hfree
    have hfree' : GapFree (left ++ [c] ++ (right ++ rest)) := by simpa using hfree
    obtain ⟨hl, _⟩ := hleft (by simpa using hfree)
    obtain ⟨hr, hends⟩ := hright hfree'.of_append_right
    refine ⟨hl.link hc hr, ?_⟩
    unfold EndsRun
    rwa [List.getLast?_append_of_ne_nil _ (List.cons_ne_nil c right),
      List.getLast?_cons_of_ne_nil hr.ne_nil]
  gaps := by
    intro before front after rest hgaps hfront hfree
    obtain ⟨rfl, rfl⟩ := hfree.eq_nil_of_gaps hgaps
    simp only [List.nil_append, List.append_nil] at hfront hfree ⊢
    exact hfront hfree

theorem frontLaw_head : FrontLaw (fun front _ => ∃ c, front.head? = some c ∧ isLink c = false) where
  star := by
    rintro c _ (rfl | rfl) <;> exact ⟨_, rfl, by decide⟩
  run := by
    intro p hp before run after rest hgaps hne hrun _
    cases before with
    | nil =>
      obtain ⟨c, cs, rfl⟩ := List.exists_cons_of_ne_nil hne
      exact ⟨c, rfl, isLink_eq_false_of_run hp (hrun c List.mem_cons_self)⟩
    | cons c cs => exact ⟨c, rfl, isLink_eq_false_of_isGap (hgaps c List.mem_cons_self)⟩
  link := by
    rintro c left right rest - ⟨d, hd, hlink⟩ -
    exact ⟨d, List.mem_head?_append_of_mem_head? hd, hlink⟩
  gaps := by
    rintro before front after rest hgaps ⟨d, hd, hlink⟩
    cases before with
    | nil => exact ⟨d, List.mem_head?_append_of_mem_head? hd, hlink⟩
    | cons c cs => exact ⟨c, rfl, isLink_eq_false_of_isGap (hgaps c List.mem_cons_self)⟩

variable {f : Field} {cs rest : List Char} {items : List Item}

/-- A text that a field reads to its end is separated. -/
theorem separated_of_field (hfree : GapFree cs) (h : field f cs = some (items, [])) :
    Separated cs := by
  obtain ⟨front, rfl, hfront⟩ := Takes.field frontLaw_separated f cs items [] h
  simpa using (hfront hfree).1

/-- What a field leaves of a separated text begins with a link. -/
theorem isLink_head_of_field (hfree : GapFree cs) (hsep : Separated cs)
    (h : field f cs = some (items, rest)) : ∀ c ∈ rest.head?, isLink c := by
  obtain ⟨front, rfl, hfront⟩ := Takes.field frontLaw_separated f cs items rest h
  obtain ⟨hsepfront, hends⟩ := hfront hfree
  intro c hc
  have hd := List.getLast?_eq_some_getLast hsepfront.ne_nil
  obtain hlink | hrun := (List.isChain_append.mp hsep.chain).2.2 _ hd c hc
  · simpa [hsepfront.last _ hd] using hlink.symm
  · exact absurd hrun (hends _ hd c hc)

/-- No field begins with a link. -/
theorem exists_head_of_field (h : field f cs = some (items, rest)) :
    ∃ c ∈ cs.head?, isLink c = false := by
  obtain ⟨front, rfl, c, hc, hlink⟩ := Takes.field frontLaw_head f cs items rest h
  exact ⟨c, List.mem_head?_append_of_mem_head? hc, hlink⟩

end RetentionJobs.Cron.Grammar
