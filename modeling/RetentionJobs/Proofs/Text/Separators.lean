import Mathlib.Data.List.Basic
import Mathlib.Data.List.Infix
import RetentionJobs.Proofs.Text.Words
/-! Cutting at a separator of several characters, and when it undoes joining: no separator may begin
inside of a piece, whatever comes after the piece. -/
namespace RetentionJobs.Text

/-- Cuts at every occurrence of `sep`, from left to right; the pieces between the cuts may be
empty. -/
def cutAt (sep cs : List Char) : List (List Char) :=
  if sep ≠ [] ∧ sep <+: cs then [] :: cutAt sep (cs.drop sep.length)
  else match cs with
    | [] => [[]]
    | c :: cs => (cutAt sep cs).modifyHead (c :: ·)
termination_by cs.length
decreasing_by
  · rename_i h
    have hsep := List.length_pos_iff.mpr h.1
    have hle := h.2.length_le
    rw [List.length_drop]
    omega
  · exact Nat.lt_succ_self cs.length

/-- Two texts differ at a place that both have. -/
def Clashes (cs ds : List Char) : Prop := ¬ cs <+: ds ∧ ¬ ds <+: cs

instance (cs ds : List Char) : Decidable (Clashes cs ds) := inferInstanceAs (Decidable (_ ∧ _))

/-- No occurrence of `sep` begins inside of `cs`, whatever follows. -/
def Avoids (sep cs : List Char) : Prop := ∀ back, back <:+ cs → back ≠ [] → Clashes sep back

theorem Clashes.append {cs ds : List Char} (h : Clashes cs ds) (es : List Char) :
    Clashes cs (ds ++ es) := by
  constructor
  · intro hprefix
    -- one of two fronts of the same text is a front of the other
    obtain hcs | hds := List.prefix_or_prefix_of_prefix hprefix (List.prefix_append ds es)
    · exact h.1 hcs
    · exact h.2 hds
  · exact fun hprefix => h.2 ((List.prefix_append ds es).trans hprefix)

theorem avoids_nil (sep : List Char) : Avoids sep [] := by
  intro back hback hne
  exact absurd (List.suffix_nil.mp hback) hne

theorem avoids_cons_iff {sep cs : List Char} {c : Char} :
    Avoids sep (c :: cs) ↔ Clashes sep (c :: cs) ∧ Avoids sep cs := by
  simp only [Avoids, List.suffix_cons_iff]
  constructor
  · intro h
    exact ⟨h _ (.inl rfl) (List.cons_ne_nil c cs), fun back hback => h back (.inr hback)⟩
  · rintro ⟨hwhole, hrest⟩ back (rfl | hback) hne
    · exact hwhole
    · exact hrest back hback hne

instance decidableAvoids (sep : List Char) : (cs : List Char) → Decidable (Avoids sep cs)
  | [] => isTrue (avoids_nil sep)
  | _ :: cs =>
    have := decidableAvoids sep cs
    decidable_of_iff _ avoids_cons_iff.symm

theorem Avoids.append {sep cs ds : List Char} (hcs : Avoids sep cs) (hds : Avoids sep ds) :
    Avoids sep (cs ++ ds) := by
  induction cs with
  | nil => exact hds
  | cons c cs ih =>
    obtain ⟨hwhole, hrest⟩ := avoids_cons_iff.mp hcs
    exact avoids_cons_iff.mpr ⟨hwhole.append ds, ih hrest⟩

/-- A text without the first character of the separator. -/
theorem avoids_of_not_mem {c : Char} {sep cs : List Char} (h : c ∉ cs) : Avoids (c :: sep) cs := by
  induction cs with
  | nil => exact avoids_nil (c :: sep)
  | cons d cs ih =>
    obtain ⟨hne, hrest⟩ := not_or.mp (mt List.mem_cons.mpr h)
    refine avoids_cons_iff.mpr ⟨?_, ih hrest⟩
    constructor
    · exact fun hprefix => hne (List.cons_prefix_cons.mp hprefix).1
    · exact fun hprefix => hne (List.cons_prefix_cons.mp hprefix).1.symm

section
variable {sep : List Char}

theorem cutAt_nil (hsep : sep ≠ []) : cutAt sep [] = [[]] := by
  unfold cutAt
  exact if_neg (fun h => hsep (List.prefix_nil.mp h.2))

theorem cutAt_sep_append (hsep : sep ≠ []) (cs : List Char) :
    cutAt sep (sep ++ cs) = [] :: cutAt sep cs := by
  rw [cutAt.eq_def, if_pos ⟨hsep, List.prefix_append sep cs⟩, List.drop_left]

theorem cutAt_cons {c : Char} {cs : List Char} (h : ¬ sep <+: c :: cs) :
    cutAt sep (c :: cs) = (cutAt sep cs).modifyHead (c :: ·) := by
  rw [cutAt.eq_def, if_neg (fun hand => h hand.2)]

/-- What stands before the first separator goes to the first piece. -/
theorem cutAt_append {cs : List Char} (h : Avoids sep cs) (ds : List Char) :
    cutAt sep (cs ++ ds) = (cutAt sep ds).modifyHead (cs ++ ·) := by
  induction cs with
  | nil => exact (congrFun List.modifyHead_id (cutAt sep ds)).symm
  | cons c cs ih =>
    obtain ⟨hwhole, hrest⟩ := avoids_cons_iff.mp h
    have hnot : ¬ sep <+: c :: (cs ++ ds) := (hwhole.append ds).1
    rw [List.cons_append, cutAt_cons hnot, ih hrest, List.modifyHead_modifyHead]
    rfl

/-- Cutting undoes joining. -/
theorem cutAt_join (hsep : sep ≠ []) {pieces : List (List Char)} (hne : pieces ≠ [])
    (h : ∀ piece ∈ pieces, Avoids sep piece) : cutAt sep (join sep pieces) = pieces := by
  induction pieces with
  | nil => exact absurd rfl hne
  | cons first pieces ih =>
    have hfirst := h first List.mem_cons_self
    cases pieces with
    | nil => simpa [cutAt_nil hsep] using cutAt_append hfirst []
    | cons second pieces =>
      have ih := ih (List.cons_ne_nil second pieces)
        (fun piece hpiece => h piece (List.mem_cons_of_mem first hpiece))
      rw [join_cons_cons, cutAt_append hfirst, cutAt_sep_append hsep, ih]
      simp

end

end RetentionJobs.Text
