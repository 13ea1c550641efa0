import Mathlib.Algebra.Ring.Nat
import Mathlib.Data.List.Basic
import RetentionJobs.Files.Path
import RetentionJobs.Outbox.Volume
/-! Where a path leads. Parts are dropped and never made, and a path of plain names gives all of
them. An absolute path leads to the same location from everywhere, and no other path does. -/
namespace RetentionJobs

namespace Path
open RetentionJobs.Text

/-- The characters of some parts, each with its slash. -/
def weight (parts : List String) : Nat := (parts.map (fun p => p.length + 1)).sum

theorem weight_cons (p : String) (parts : List String) :
    weight (p :: parts) = p.length + 1 + weight parts := rfl

theorem weight_append (parts parts' : List String) :
    weight (parts ++ parts') = weight parts + weight parts' := by
  simp only [weight, List.map_append, List.sum_append]

theorem weight_le_of_sublist {parts parts' : List String} (h : parts.Sublist parts') :
    weight parts ≤ weight parts' := by
  induction h with
  | slnil => exact Nat.le_refl _
  | cons p _ ih => rw [weight_cons]; omega
  | cons_cons p _ ih => rw [weight_cons, weight_cons]; omega

theorem sum_cut (p : Char → Bool) (cs : List Char) :
    ((cut p cs).map (fun piece => piece.length + 1)).sum = cs.length + 1 := by
  induction cs with
  | nil => rfl
  | cons c cs ih =>
    rw [cut]
    split
    · rw [List.map_cons, List.sum_cons, ih, List.length_nil, List.length_cons]
      omega
    · split
      · rename_i hnil
        exact absurd hnil (cut_ne_nil p cs)
      · rename_i piece pieces hcut
        rw [hcut, List.map_cons, List.sum_cons] at ih
        rw [List.map_cons, List.sum_cons, List.length_cons, List.length_cons]
        omega

theorem weight_pieces (path : String) : weight (pieces path) = path.length + 1 := by
  have hsum := sum_cut (· == '/') path.toList
  rw [String.length_toList] at hsum
  rw [← hsum, weight, pieces, List.map_map]
  exact congrArg List.sum (List.map_congr_left fun piece _ => by simp)

theorem pieces_of_isAbsolute {path : String} (h : isAbsolute path) :
    pieces path = "" :: (pieces path).tail := by
  obtain ⟨cs, hcs⟩ := List.head?_eq_some_iff.mp (beq_iff_eq.mp h)
  have hcut : cut (· == '/') ('/' :: cs) = [] :: cut (· == '/') cs :=
    if_pos (beq_self_eq_true '/')
  rw [pieces, hcs, hcut]
  rfl

theorem isAbsolute_append {dir : String} (h : isAbsolute dir) (rest : String) :
    isAbsolute (dir ++ rest) := by
  obtain ⟨cs, hcs⟩ := List.head?_eq_some_iff.mp (beq_iff_eq.mp h)
  simp [isAbsolute, hcs]

theorem isAbsolute_join {dir : String} (h : isAbsolute dir) (file : String) :
    isAbsolute (join dir file) := by
  have hdir : dir ≠ "" := by rintro rfl; cases h
  unfold join
  split
  · rename_i hfile
    exact hfile.resolve_right hdir
  · split
    · exact isAbsolute_append h file
    · exact isAbsolute_append (isAbsolute_append h "/") file

theorem isAbsolute_parent {path dir : String} (h : isAbsolute path)
    (hparent : parent? path = some dir) : isAbsolute dir := by
  unfold parent? at hparent
  split at hparent
  · cases hparent
  · rw [← Option.some.inj hparent, if_pos h]
    exact isAbsolute_append (by decide) _

/-- The pieces of a path. What stands before the first slash of an absolute path is none. -/
def names (path : String) : List String :=
  if isAbsolute path then (pieces path).tail else pieces path

theorem weight_names (path : String) :
    weight (names path) + (if isAbsolute path then 1 else 0) = path.length + 1 := by
  rw [← weight_pieces, names]
  split
  · rename_i habsolute
    rw [pieces_of_isAbsolute habsolute, weight_cons, List.tail_cons, String.length_empty]
    omega
  · rfl

theorem components_sublist_names (path : String) : (components path).Sublist (names path) := by
  unfold components names
  split
  · rename_i hdot
    have hrelative : ¬ isAbsolute path := fun habsolute => by
      rw [pieces_of_isAbsolute habsolute] at hdot
      exact absurd (Option.some.inj hdot) (by decide)
    obtain ⟨more, hmore⟩ := List.head?_eq_some_iff.mp hdot
    rw [if_neg hrelative, hmore, List.filter_cons_of_neg (by decide)]
    exact List.filter_sublist.cons_cons "."
  · split
    · rename_i habsolute
      rw [pieces_of_isAbsolute habsolute, List.filter_cons_of_neg (by decide), List.tail_cons]
      exact List.filter_sublist
    · exact List.filter_sublist

/-- A path on which every piece is the name of a file or a directory. -/
def IsPlain (path : String) : Prop := ∀ p ∈ names path, p ≠ "" ∧ p ≠ "." ∧ p ≠ ".."

instance (path : String) : Decidable (IsPlain path) := inferInstanceAs (Decidable (∀ _ ∈ _, _))

theorem components_of_isPlain {path : String} (h : IsPlain path) : components path = names path := by
  have hkept : (names path).filter (fun p => p != "" && p != ".") = names path := by
    refine List.filter_eq_self.mpr fun p hp => ?_
    obtain ⟨hempty, hdot, _⟩ := h p hp
    simp [hempty, hdot]
  by_cases habsolute : isAbsolute path
  · have hpieces := pieces_of_isAbsolute habsolute
    have hnames : names path = (pieces path).tail := if_pos habsolute
    have hdot : ("" :: (pieces path).tail).head? ≠ some "." := by simp
    rw [components, hpieces, if_neg hdot, List.filter_cons_of_neg (by decide), ← hnames, hkept]
  · have hnames : names path = pieces path := if_neg habsolute
    have hdot : (pieces path).head? ≠ some "." := fun hdot =>
      (h "." (hnames ▸ List.mem_of_mem_head? hdot)).2.1 rfl
    rw [components, if_neg hdot, ← hnames, hkept]

end Path

namespace Location
open RetentionJobs.Path

theorem weight_follow_le (base : Location) (parts : List String) :
    weight (follow base parts) ≤ weight base + weight parts := by
  fun_induction follow base parts with
  | case1 base => exact Nat.le_refl _
  | case2 base parts ih => rw [weight_cons]; omega
  | case3 base parts ih =>
    have hdropped := weight_le_of_sublist (List.dropLast_sublist base)
    rw [weight_cons]
    omega
  | case4 base part parts _ _ ih =>
    have hpart : weight [part] = part.length + 1 := rfl
    rw [weight_append] at ih
    rw [weight_cons]
    omega

theorem follow_of_plain {base : Location} {parts : List String}
    (h : ∀ p ∈ parts, p ≠ "." ∧ p ≠ "..") : follow base parts = base ++ parts := by
  induction parts generalizing base with
  | nil => rw [follow, List.append_nil]
  | cons part parts ih =>
    obtain ⟨⟨hdot, hdots⟩, hparts⟩ := List.forall_mem_cons.mp h
    rw [follow, ih hparts, List.append_assoc, List.singleton_append]
    · exact hdot
    · exact hdots

/-- Going up fewer directories than there are leaves the first one. -/
theorem head?_follow {base : Location} {parts : List String}
    (h : parts.count ".." < base.length) : (follow base parts).head? = base.head? := by
  fun_induction follow base parts with
  | case1 base => rfl
  | case2 base parts ih => exact ih (by simpa using h)
  | case3 base parts ih =>
    rw [List.count_cons_self] at h
    rw [ih (by rw [List.length_dropLast]; omega), List.head?_dropLast, if_pos (by omega)]
  | case4 base part parts _ hdots ih =>
    rw [List.count_cons_of_ne hdots] at h
    rw [ih (by rw [List.length_append]; omega), List.head?_append_of_ne_nil]
    exact List.ne_nil_of_length_pos (by omega)

end Location

namespace Volume
open RetentionJobs.Path

theorem weight_locate_le (v : Volume) (path : String) :
    weight (v.locate path) + (if isAbsolute path then 1 else 0) ≤
      weight (v.start path) + path.length + 1 := by
  have hfollow := Location.weight_follow_le (v.start path) (components path)
  have hcomponents := weight_le_of_sublist (components_sublist_names path)
  have hnames := weight_names path
  rw [locate]
  omega

/-- A plain path leads to a location that has all its names. -/
theorem weight_locate_of_isPlain {path : String} (h : IsPlain path) (v : Volume) :
    weight (v.locate path) + (if isAbsolute path then 1 else 0) =
      weight (v.start path) + path.length + 1 := by
  have hnames := weight_names path
  rw [locate, components_of_isPlain h, Location.follow_of_plain fun p hp => (h p hp).2,
    weight_append]
  omega

theorem start_of_isAbsolute {path : String} (h : Path.isAbsolute path) (v : Volume) :
    v.start path = [] := if_pos h

theorem locate_of_isAbsolute {path : String} (h : Path.isAbsolute path) (v w : Volume) :
    v.locate path = w.locate path := by
  rw [locate, locate, start_of_isAbsolute h, start_of_isAbsolute h]

/-- A path leads to one place from all directories exactly if it is absolute. -/
theorem locate_eq_iff {path : String} :
    (∀ v w : Volume, v.locate path = w.locate path) ↔ Path.isAbsolute path := by
  refine ⟨fun h => ?_, locate_of_isAbsolute⟩
  by_contra hrelative
  -- A working directory that is deeper than the path goes up.
  let deep (name : String) : Volume :=
    ⟨List.replicate ((Path.components path).count ".." + 1) name, []⟩
  have hhead (name : String) : ((deep name).locate path).head? = some name := by
    rw [locate, start, if_neg hrelative, Location.head?_follow, List.head?_replicate, if_neg]
    · omega
    · rw [List.length_replicate]
      omega
  have hsame := hhead "a"
  rw [h (deep "a") (deep "b"), hhead "b"] at hsame
  exact absurd hsame (by decide)

end Volume
end RetentionJobs
