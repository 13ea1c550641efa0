import Mathlib.Data.List.Basic
import Mathlib.Data.List.TakeWhile
import RetentionJobs.Text.Blank
/-! Cutting and joining are inverse on pieces without the separator. Words are the runs between
blanks, and words joined by single spaces split into the same words again. -/
namespace RetentionJobs.Text

theorem cut_eq_splitOnP (p : Char → Bool) (cs : List Char) : cut p cs = cs.splitOnP p := by
  induction cs with
  | nil => rfl
  | cons c cs ih =>
    rw [List.splitOnP_cons_eq_if_modifyHead, cut, ih]
    split
    · rfl
    · cases h : cs.splitOnP p with
      | nil => exact absurd h (List.splitOnP_ne_nil p cs)
      | cons piece pieces => rfl

theorem cut_eq_splitOn (c : Char) (cs : List Char) : cut (· == c) cs = cs.splitOn c :=
  (cut_eq_splitOnP _ cs).trans List.splitOn_eq_splitOnP.symm

theorem cut_cons_of_neg {p : Char → Bool} {c : Char} (h : p c = false) (cs : List Char) :
    ∃ piece pieces, cut p cs = piece :: pieces ∧ cut p (c :: cs) = (c :: piece) :: pieces := by
  cases hcut : cut p cs with
  | nil => exact absurd hcut (cut_ne_nil p cs)
  | cons piece pieces => exact ⟨piece, pieces, rfl, by simp [cut, h, hcut]⟩

/-- The pieces hold the characters that are no cuts, and only those. -/
theorem exists_mem_cut_iff {p : Char → Bool} {cs : List Char} {x : Char} :
    (∃ piece ∈ cut p cs, x ∈ piece) ↔ x ∈ cs ∧ p x = false := by
  induction cs with
  | nil => simp
  | cons c cs ih =>
    cases hc : p c with
    | true =>
      have hx : p x = false → x ≠ c := by
        rintro hx rfl
        simp [hx] at hc
      rw [cut_cons_of_pos hc]
      simp only [List.mem_cons, exists_eq_or_imp, List.not_mem_nil, false_or, ih]
      tauto
    | false =>
      obtain ⟨piece, pieces, hcut, hcons⟩ := cut_cons_of_neg hc cs
      have hx : x = c → p x = false := by
        rintro rfl
        exact hc
      rw [hcut] at ih
      rw [hcons]
      simp only [List.mem_cons, exists_eq_or_imp] at ih ⊢
      rw [or_assoc, ih, or_and_right, and_iff_left_of_imp hx]

@[simp] theorem join_nil (sep : List Char) : join sep [] = [] := rfl

@[simp] theorem join_singleton (sep piece : List Char) : join sep [piece] = piece :=
  List.intercalate_singleton

@[simp] theorem join_cons_cons (sep first second : List Char) (pieces : List (List Char)) :
    join sep (first :: second :: pieces) = first ++ (sep ++ join sep (second :: pieces)) := by
  simp [join, List.intercalate_cons_cons]

theorem join_cons_of_ne_nil {sep first : List Char} {pieces : List (List Char)} (h : pieces ≠ []) :
    join sep (first :: pieces) = first ++ (sep ++ join sep pieces) := by
  simp [join, List.intercalate_cons_of_ne_nil h]

theorem join_append {sep : List Char} {xs ys : List (List Char)} (hx : xs ≠ []) (hy : ys ≠ []) :
    join sep (xs ++ ys) = join sep xs ++ (sep ++ join sep ys) := by
  induction xs with
  | nil => exact absurd rfl hx
  | cons x xs ih =>
    cases xs with
    | nil => simp [join_cons_of_ne_nil hy]
    | cons x' xs =>
      have ih := ih (by simp)
      simp only [List.cons_append] at ih ⊢
      simp [ih]

/-- Joining joined groups is joining their members. -/
theorem join_map_join {α : Type} (sep : List Char) (groups : α → List (List Char)) (xs : List α)
    (h : ∀ x ∈ xs, groups x ≠ []) :
    join sep (xs.map (fun x => join sep (groups x))) = join sep (xs.flatMap groups) := by
  induction xs with
  | nil => rfl
  | cons x xs ih =>
    have hx : groups x ≠ [] := h x (by simp)
    have ih := ih (fun y hy => h y (by simp [hy]))
    cases xs with
    | nil => simp
    | cons y ys =>
      have hy : (y :: ys).flatMap groups ≠ [] := by simp [h y]
      rw [List.flatMap_cons, join_append hx hy, ← ih]
      simp

theorem join_cons_eq_flatMap (sep first : List Char) (pieces : List (List Char)) :
    join sep (first :: pieces) = first ++ pieces.flatMap (sep ++ ·) := by
  induction pieces generalizing first with
  | nil => simp
  | cons second pieces ih => rw [join_cons_cons, ih, List.flatMap_cons, List.append_assoc]

/-- The pieces after the first one, each behind a comma. -/
def more (pieces : List (List Char)) : List Char := pieces.flatMap (',' :: ·)

theorem more_cons (piece : List Char) (pieces : List (List Char)) :
    more (piece :: pieces) = ',' :: (piece ++ more pieces) := rfl

theorem length_le_more (pieces : List (List Char)) : pieces.length ≤ (more pieces).length := by
  induction pieces with
  | nil => simp
  | cons piece pieces ih =>
    simp only [more_cons, List.length_cons, List.length_append]
    omega

theorem join_cons_more (first : List Char) (pieces : List (List Char)) :
    join [','] (first :: pieces) = first ++ more pieces := join_cons_eq_flatMap [','] first pieces

theorem mem_join_iff {sep : List Char} {c : Char} (hsep : c ∉ sep) (pieces : List (List Char)) :
    c ∈ join sep pieces ↔ ∃ piece ∈ pieces, c ∈ piece := by
  induction pieces with
  | nil => simp
  | cons first pieces ih =>
    cases pieces with
    | nil => simp
    | cons second pieces =>
      rw [join_cons_cons, List.mem_append, List.mem_append, ih]
      simp [hsep]

theorem cut_join {c : Char} {pieces : List (List Char)} (hne : pieces ≠ [])
    (h : ∀ piece ∈ pieces, c ∉ piece) : cut (· == c) (join [c] pieces) = pieces := by
  rw [cut_eq_splitOn]
  exact List.splitOn_intercalate c h hne

theorem join_cut (c : Char) (cs : List Char) : join [c] (cut (· == c) cs) = cs := by
  rw [cut_eq_splitOn]
  exact List.intercalate_splitOn c

/-- A cut of joined texts cuts each of them. -/
theorem cut_join_eq_flatMap (c : Char) {pieces : List (List Char)} (hne : pieces ≠ []) :
    cut (· == c) (join [c] pieces) = pieces.flatMap (cut (· == c)) := by
  induction pieces with
  | nil => exact absurd rfl hne
  | cons first pieces ih =>
    cases pieces with
    | nil => simp
    | cons second pieces =>
      have ih := ih (List.cons_ne_nil second pieces)
      have hcut := List.splitOnP_append_cons (p := (· == c)) first (join [c] (second :: pieces))
        (beq_self_eq_true c)
      simp only [← cut_eq_splitOnP, ih] at hcut
      rw [join_cons_cons, List.singleton_append, hcut]
      rfl

/-- A non-empty run without blanks. -/
def IsWord (w : List Char) : Prop := w ≠ [] ∧ ∀ c ∈ w, isBlank c = false

theorem isWord_of_mem_words {cs w : List Char} (h : w ∈ words cs) : IsWord w :=
  ⟨ne_nil_of_mem_words h, fun _ hc => (exists_mem_cut_iff.mp ⟨w, List.mem_of_mem_filter h, hc⟩).2⟩

theorem words_of_isWord {w : List Char} (h : IsWord w) : words w = [w] := by
  have hcut : cut isBlank w = [w] := by
    rw [cut_eq_splitOnP]
    exact List.splitOnP_eq_singleton h.2
  simp [words, hcut, h.1]

theorem words_append_blank {w : List Char} {b : Char} (hw : IsWord w) (hb : isBlank b)
    (cs : List Char) : words (w ++ b :: cs) = w :: words cs := by
  have hcut : cut isBlank (w ++ b :: cs) = w :: cut isBlank cs := by
    rw [cut_eq_splitOnP, List.splitOnP_append_cons_of_forall_mem hw.2 b hb, cut_eq_splitOnP]
  simp [words, hcut, hw.1]

theorem words_append {b : Char} (hb : isBlank b) (cs ds : List Char) :
    words (cs ++ b :: ds) = words cs ++ words ds := by
  simp only [words, cut_eq_splitOnP, List.splitOnP_append_cons cs ds hb, List.filter_append]

/-- No word runs across a joint. -/
theorem words_join_eq_flatMap (pieces : List (List Char)) :
    words (join [' '] pieces) = pieces.flatMap words := by
  induction pieces with
  | nil => rfl
  | cons first pieces ih =>
    cases pieces with
    | nil => simp
    | cons second pieces =>
      rw [join_cons_cons, List.singleton_append, words_append (by decide), ih]
      rfl

theorem words_ne_nil {cs : List Char} {c : Char} (hc : c ∈ cs) (hblank : isBlank c = false) :
    words cs ≠ [] := by
  obtain ⟨piece, hpiece, hmem⟩ := exists_mem_cut_iff.mpr ⟨hc, hblank⟩
  refine List.ne_nil_of_mem (List.mem_filter.mpr ⟨hpiece, ?_⟩)
  simp [List.ne_nil_of_mem hmem]

/-- Words joined by single spaces split into the same words again. -/
theorem words_join {ws : List (List Char)} (h : ∀ w ∈ ws, IsWord w) :
    words (join [' '] ws) = ws := by
  induction ws with
  | nil => rfl
  | cons w ws ih =>
    have hw : IsWord w := h w (by simp)
    have ih := ih (fun v hv => h v (by simp [hv]))
    cases ws with
    | nil => simpa using words_of_isWord hw
    | cons v ws =>
      rw [join_cons_cons, List.singleton_append, words_append_blank hw (by decide), ih]

theorem trim_of_isWord {w : List Char} (h : IsWord w) : trim w = w := by
  have hfront : w.dropWhile isBlank = w := by
    cases w with
    | nil => rfl
    | cons c cs => simp [h.2 c (by simp)]
  have hback : w.reverse.dropWhile isBlank = w.reverse := by
    cases hr : w.reverse with
    | nil => rfl
    | cons c cs =>
      have hc : isBlank c = false := h.2 c (by rw [← List.mem_reverse, hr]; simp)
      simp [hc]
  simp [trim, strip, hfront, hback]

/-- Neither end is a blank. -/
def IsTrimmed (cs : List Char) : Prop :=
  (∀ c ∈ cs.head?, isBlank c = false) ∧ ∀ c ∈ cs.getLast?, isBlank c = false

theorem head?_dropWhile {p : Char → Bool} {cs : List Char} {c : Char}
    (h : c ∈ (cs.dropWhile p).head?) : p c = false := by
  have hnot := List.head?_dropWhile_not p cs
  rw [Option.mem_def.mp h] at hnot
  simpa using hnot

theorem isTrimmed_trim (cs : List Char) : IsTrimmed (trim cs) := by
  constructor
  · intro c hc
    -- the back is dropped from what the front was dropped from, so the first character stays
    obtain ⟨back, hback⟩ : trim cs <+: cs.dropWhile isBlank := by
      have hsuffix := List.dropWhile_suffix (l := (cs.dropWhile isBlank).reverse) isBlank
      simpa [trim, strip] using List.reverse_prefix.mpr hsuffix
    have hhead : c ∈ (cs.dropWhile isBlank).head? := by
      rw [← hback, List.head?_append, Option.mem_def.mp hc]
      rfl
    exact head?_dropWhile hhead
  · intro c hc
    rw [trim, strip, List.getLast?_reverse] at hc
    exact head?_dropWhile hc

theorem isTrimmed_singleton {c : Char} (h : isBlank c = false) : IsTrimmed [c] := by
  simp [IsTrimmed, h]

theorem trim_eq_nil_iff {cs : List Char} : trim cs = [] ↔ ∀ c ∈ cs, isBlank c := by
  rw [trim, strip, List.reverse_eq_nil_iff, List.dropWhile_eq_nil_iff]
  simp only [List.mem_reverse]
  constructor
  · intro h
    cases hfront : cs.dropWhile isBlank with
    | nil => exact List.dropWhile_eq_nil_iff.mp hfront
    | cons c rest =>
      -- the character at which dropping stopped is no blank, but would have to be one
      have hc : isBlank c = false := head?_dropWhile (by rw [hfront]; rfl)
      simp [h c (by simp [hfront])] at hc
  · intro h c hc
    exact h c ((List.dropWhile_suffix isBlank).mem hc)

/-- A blank inside of a trimmed text has a word on either side. -/
theorem two_le_length_words {cs : List Char} {b : Char} (h : IsTrimmed cs) (hb : b ∈ cs)
    (hblank : isBlank b) : 2 ≤ (words cs).length := by
  obtain ⟨front, back, rfl, _⟩ := List.eq_append_cons_of_mem hb
  have hfront : words front ≠ [] := by
    cases front with
    | nil => simp [h.1 b (by simp)] at hblank
    | cons c front => exact words_ne_nil List.mem_cons_self (h.1 c (by simp))
  have hback : words back ≠ [] := by
    cases hlast : back.getLast? with
    | none =>
      obtain rfl := List.getLast?_eq_none_iff.mp hlast
      simp [h.2 b (by simp)] at hblank
    | some c =>
      refine words_ne_nil (List.mem_of_getLast? hlast) (h.2 c ?_)
      simp [List.getLast?_append, List.getLast?_cons, hlast]
  rw [words_append hblank, List.length_append]
  have := List.length_pos_iff.mpr hfront
  have := List.length_pos_iff.mpr hback
  omega

theorem length_words_pos {cs : List Char} (h : IsTrimmed cs) (hne : cs ≠ []) :
    0 < (words cs).length := by
  obtain ⟨c, cs, rfl⟩ := List.exists_cons_of_ne_nil hne
  exact List.length_pos_iff.mpr (words_ne_nil List.mem_cons_self (h.1 c (by simp)))

/-- Trimmed texts have at least as many words as they are. -/
theorem length_le_flatMap_words {vs : List (List Char)} (h : ∀ v ∈ vs, IsTrimmed v ∧ v ≠ []) :
    vs.length ≤ (vs.flatMap words).length := by
  induction vs with
  | nil => simp
  | cons v vs ih =>
    have hv := length_words_pos (h v (by simp)).1 (h v (by simp)).2
    have ih := ih (fun w hw => h w (by simp [hw]))
    simp only [List.flatMap_cons, List.length_append, List.length_cons]
    omega

/-- Trimmed texts have just as many words as they are when none of them has a blank inside. -/
theorem length_flatMap_words_eq_iff {vs : List (List Char)}
    (h : ∀ v ∈ vs, IsTrimmed v ∧ v ≠ []) :
    (vs.flatMap words).length = vs.length ↔ ∀ v ∈ vs, ∀ c ∈ v, isBlank c = false := by
  induction vs with
  | nil => simp
  | cons v vs ih =>
    obtain ⟨htrim, hne⟩ := h v (by simp)
    have hvs : ∀ w ∈ vs, IsTrimmed w ∧ w ≠ [] := fun w hw => h w (by simp [hw])
    have hle := length_le_flatMap_words hvs
    simp only [List.flatMap_cons, List.length_append, List.length_cons, List.forall_mem_cons,
      ← ih hvs]
    constructor
    · intro hlen
      have hpos := length_words_pos htrim hne
      refine ⟨?_, by omega⟩
      intro c hc
      by_contra hblank
      have := two_le_length_words htrim hc ((Bool.not_eq_false _).mp hblank)
      omega
    · rintro ⟨hword, hlen⟩
      rw [words_of_isWord ⟨hne, hword⟩, hlen, List.length_singleton, Nat.add_comm]

/-- A run ends where the rest does not go on with it. -/
theorem cut_run {p : Char → Bool} {run rest : List Char} (hrun : ∀ c ∈ run, p c)
    (hrest : ∀ c ∈ rest.head?, p c = false) :
    (run ++ rest).takeWhile p = run ∧ (run ++ rest).dropWhile p = rest := by
  rw [List.takeWhile_append_of_pos hrun, List.dropWhile_append_of_pos hrun]
  cases rest with
  | nil => simp
  | cons c rest => simp [hrest c rfl]

theorem splitFirst_of_not_mem {c : Char} {cs : List Char} (h : c ∉ cs) :
    splitFirst c cs = (cs, none) := by
  have hd : cs.dropWhile (· ≠ c) = [] := by
    rw [← List.append_nil cs, List.dropWhile_append_of_pos]
    · rfl
    · intro x hx
      exact decide_eq_true (ne_of_mem_of_not_mem hx h)
  unfold splitFirst
  rw [hd]

theorem splitFirst_append {c : Char} {front : List Char} (h : c ∉ front) (after : List Char) :
    splitFirst c (front ++ c :: after) = (front, some after) := by
  have hf : ∀ x ∈ front, decide (x ≠ c) = true := fun x hx =>
    decide_eq_true (ne_of_mem_of_not_mem hx h)
  have hd : (front ++ c :: after).dropWhile (· ≠ c) = c :: after := by
    rw [List.dropWhile_append_of_pos hf]
    simp
  have ht : (front ++ c :: after).takeWhile (· ≠ c) = front := by
    rw [List.takeWhile_append_of_pos hf]
    simp
  unfold splitFirst
  rw [hd, ht]

theorem append_cons_inj {c : Char} {front front' after after' : List Char} (h : c ∉ front)
    (h' : c ∉ front') :
    front ++ c :: after = front' ++ c :: after' ↔ front = front' ∧ after = after' := by
  constructor
  · intro heq
    have hsplit := splitFirst_append h after
    rw [heq, splitFirst_append h' after'] at hsplit
    simpa [eq_comm] using hsplit
  · rintro ⟨rfl, rfl⟩
    rfl

theorem cut_of_not_mem {c : Char} {cs : List Char} (h : c ∉ cs) : cut (· == c) cs = [cs] := by
  rw [cut_eq_splitOn]
  exact List.splitOn_eq_singleton h

/-- Splitting at the first `c` takes that one character out, and nothing else. -/
theorem splitFirst_spec (c : Char) (cs : List Char) :
    (splitFirst c cs = (cs, none) ∧ c ∉ cs) ∨
      ∃ front after, splitFirst c cs = (front, some after) ∧ cs = front ++ c :: after := by
  by_cases h : c ∈ cs
  · obtain ⟨front, after, rfl, hc⟩ := List.eq_append_cons_of_mem h
    exact .inr ⟨front, after, splitFirst_append hc after, rfl⟩
  · exact .inl ⟨splitFirst_of_not_mem h, h⟩

end RetentionJobs.Text
