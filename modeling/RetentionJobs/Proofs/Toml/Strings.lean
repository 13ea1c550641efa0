import Mathlib.Tactic.IntervalCases
import RetentionJobs.Toml.Reader
import RetentionJobs.Toml.Writer
/-! Strings are read back from whichever form they are written in. -/
namespace RetentionJobs.Toml

/-! ### Escapes -/

/-- The characters that are escaped where they cannot stand for themselves. -/
def IsCoded (c : Char) : Prop := c = '"' ∨ c = '\\' ∨ c.toNat < 0x20 ∨ c.toNat = 0x7F

/-- An escape is a backslash, a character that no line can be folded at, and what belongs to it. -/
theorem code_spec {c : Char} (h : IsCoded c) :
    ∃ d after, code c = '\\' :: d :: after ∧ isSpace d = false ∧ d ≠ '\n' ∧ d ≠ '\r' ∧
      ∀ rest, escape (d :: after ++ rest) = some (c, rest) := by
  obtain rfl | rfl | h | h := h
  · exact ⟨'"', [], rfl, rfl, by decide, by decide, fun _ => rfl⟩
  · exact ⟨'\\', [], rfl, rfl, by decide, by decide, fun _ => rfl⟩
  · obtain ⟨n, hn⟩ : ∃ n, n = c.toNat := ⟨_, rfl⟩
    obtain rfl : c = Char.ofNat n := by rw [hn, Char.ofNat_toNat]
    rw [← hn] at h
    clear hn
    interval_cases n <;> exact ⟨_, _, rfl, rfl, by decide, by decide, fun _ => rfl⟩
  · obtain rfl : c = Char.ofNat 0x7F := by rw [← h, Char.ofNat_toNat]
    exact ⟨_, _, rfl, rfl, by decide, by decide, fun _ => rfl⟩

/-- The other characters stand for themselves. -/
theorem isPlain_of_not_isCoded {c : Char} (h : ¬ IsCoded c) : isPlain c := by
  simp only [IsCoded, not_or, Nat.not_lt] at h
  simp [isPlain, h.2.2.1, h.2.2.2]

/-! ### One line -/

theorem basicBody_escape {c : Char} {after rest s more : List Char}
    (h : escape after = some (c, rest)) (hrest : basicBody rest = some (s, more)) :
    basicBody ('\\' :: after) = some (c :: s, more) := by
  rw [basicBody]
  split
  · rename_i hnone
    cases h.symm.trans hnone
  · rename_i c' rest' hsome
    obtain ⟨rfl, rfl⟩ := Prod.mk.inj (Option.some.inj (h.symm.trans hsome))
    simp only [hrest, Option.bind_eq_bind, Option.bind_some, Option.pure_def]

theorem basicBody_plain {c : Char} {rest s more : List Char} (h : ¬ IsCoded c)
    (hrest : basicBody rest = some (s, more)) : basicBody (c :: rest) = some (c :: s, more) := by
  have hplain := isPlain_of_not_isCoded h
  simp only [IsCoded, not_or] at h
  rw [basicBody]
  · simp only [hplain, if_true, hrest, Option.bind_eq_bind, Option.bind_some, Option.pure_def]
  · rintro rfl
    exact h.1 rfl
  · rintro rfl
    exact h.2.1 rfl

theorem escaped_code {long : Bool} {run : Nat} {c : Char} (h : IsCoded c)
    (hquote : c = '"' → ¬ (long ∧ run < 2)) (hbreak : c = '\n' → ¬ long) (cs : List Char) :
    escaped long run (c :: cs) = code c ++ escaped long 0 cs := by
  rw [escaped]
  split
  · rename_i heq
    rw [if_neg (hquote heq)]
  · rename_i hne
    rw [if_neg fun hlong => hbreak hlong.1 hlong.2, if_pos (h.resolve_left hne)]

theorem escaped_plain {c : Char} (h : ¬ IsCoded c) (long : Bool) (run : Nat) (cs : List Char) :
    escaped long run (c :: cs) = c :: escaped long 0 cs := by
  have hbreak : c ≠ '\n' := by
    rintro rfl
    exact h (.inr (.inr (.inl (by decide))))
  rw [escaped, if_neg fun hquote => h (.inl hquote), if_neg fun hlong => hbreak hlong.1,
    if_neg fun hcoded => h (.inr hcoded)]

theorem basicBody_escaped (cs rest : List Char) :
    basicBody (escaped false 0 cs ++ '"' :: rest) = some (cs, rest) := by
  induction cs with
  | nil => rw [escaped, List.nil_append, basicBody]
  | cons c cs ih =>
    by_cases h : IsCoded c
    · obtain ⟨d, after, hcode, _, _, _, hescape⟩ := code_spec h
      rw [escaped_code h (by simp) (by simp), hcode, List.append_assoc, List.cons_append]
      exact basicBody_escape (hescape _) ih
    · rw [escaped_plain h]
      exact basicBody_plain h ih

/-- What stands in single quotes on one line. -/
theorem literalBody_append {cs : List Char} (h : ∀ c ∈ cs, isPlain c ∧ c ≠ '\x27')
    (rest : List Char) : literalBody (cs ++ '\x27' :: rest) = some (cs, rest) := by
  induction cs with
  | nil => rfl
  | cons c cs ih =>
    obtain ⟨⟨hplain, hquote⟩, hcs⟩ := List.forall_mem_cons.mp h
    rw [List.cons_append, literalBody]
    · simp only [hplain, if_true, ih hcs, Option.bind_eq_bind, Option.bind_some, Option.pure_def]
    · exact hquote

/-! ### Several lines -/

theorem longBody_escape {c : Char} {after rest s more : List Char} (hfold : foldsLine after = false)
    (h : escape after = some (c, rest)) (hrest : longBody .no rest = some (s, more)) :
    longBody .no ('\\' :: after) = some (c :: s, more) := by
  rw [longBody, hfold]
  simp only [Bool.false_eq_true, if_false]
  split
  · rename_i hnone
    cases h.symm.trans hnone
  · rename_i c' rest' hsome
    obtain ⟨rfl, rfl⟩ := Prod.mk.inj (Option.some.inj (h.symm.trans hsome))
    simp only [hrest, Option.bind_eq_bind, Option.bind_some, Option.pure_def]

theorem longBody_break {rest s more : List Char} (hrest : longBody .no rest = some (s, more)) :
    longBody .no ('\n' :: rest) = some ('\n' :: s, more) := by
  rw [longBody]
  simp only [if_true, hrest, Option.bind_eq_bind, Option.bind_some, Option.pure_def]

/-- A character that stands for itself. A quote does when two more do not follow. -/
theorem longBody_plain {c : Char} {rest s more : List Char} (hplain : isPlain c) (hslash : c ≠ '\\')
    (hquote : c = '"' → ¬ ['"', '"'] <+: rest) (hrest : longBody .no rest = some (s, more)) :
    longBody .no (c :: rest) = some (c :: s, more) := by
  rw [longBody]
  · simp only [ne_eq, not_true_eq_false, false_and, if_false, hplain, if_true, hrest,
      Option.bind_eq_bind, Option.bind_some, Option.pure_def]
  · rintro rfl
    exact absurd hplain (by decide)
  · rintro _ rfl
    exact absurd hplain (by decide)
  · rintro _ rfl rfl
    exact hquote rfl ⟨_, rfl⟩
  · rintro _ rfl rfl
    exact hquote rfl ⟨_, rfl⟩
  · rintro _ rfl rfl
    exact hquote rfl ⟨_, rfl⟩
  · exact hslash

theorem escaped_quote {run : Nat} (h : run < 2) (cs : List Char) :
    escaped true run ('"' :: cs) = '"' :: escaped true (run + 1) cs := by
  rw [escaped, if_pos rfl, if_pos ⟨rfl, h⟩]

/-- What is written for a character on several lines. -/
theorem escaped_cases (run : Nat) (c : Char) (cs : List Char) :
    (c = '\n' ∧ escaped true run (c :: cs) = '\n' :: escaped true 0 cs) ∨
      (c = '"' ∧ run < 2 ∧ escaped true run (c :: cs) = '"' :: escaped true (run + 1) cs) ∨
      (IsCoded c ∧ (c = '"' → 2 ≤ run) ∧
        escaped true run (c :: cs) = code c ++ escaped true 0 cs) ∨
      (¬ IsCoded c ∧ escaped true run (c :: cs) = c :: escaped true 0 cs) := by
  by_cases hbreak : c = '\n'
  · subst hbreak
    exact .inl ⟨rfl, by rw [escaped, if_neg (by decide), if_pos ⟨rfl, rfl⟩]⟩
  by_cases hraw : c = '"' ∧ run < 2
  · obtain ⟨rfl, hrun⟩ := hraw
    exact .inr (.inl ⟨rfl, hrun, escaped_quote hrun cs⟩)
  by_cases h : IsCoded c
  · refine .inr (.inr (.inl ⟨h, fun hquote => ?_, ?_⟩))
    · exact Nat.le_of_not_lt fun hlt => hraw ⟨hquote, hlt⟩
    · exact escaped_code h (fun hquote hlong => hraw ⟨hquote, hlong.2⟩)
        (fun heq => absurd heq hbreak) cs
  · exact .inr (.inr (.inr ⟨h, escaped_plain h true run cs⟩))

theorem foldsLine_cons {c : Char} (hspace : isSpace c = false) (hbreak : c ≠ '\n')
    (hreturn : c ≠ '\r') (cs : List Char) : foldsLine (c :: cs) = false := by
  unfold foldsLine skipSpace
  rw [List.dropWhile_cons_of_neg (by simp [hspace])]
  split
  · rename_i heq
    exact absurd (List.cons.inj heq).1 hbreak
  · rename_i heq
    exact absurd (List.cons.inj heq).1 hreturn
  · rfl

/-- The first character that is written for a text stands for itself, or it is a backslash. -/
theorem head_escaped {d : Char} {run : Nat} {c : Char} {cs closing : List Char}
    (h : [d] <+: escaped true run (c :: cs) ++ closing) :
    d = '\\' ∨ d = c ∧ (d = '"' → run < 2) ∧ d ≠ '\r' := by
  obtain ⟨rfl, heq⟩ | ⟨rfl, hrun, heq⟩ | ⟨hcoded, hquote, heq⟩ | ⟨hplain, heq⟩ :=
    escaped_cases run c cs
  · rw [heq] at h
    obtain rfl := (List.cons_prefix_cons.mp h).1
    exact .inr ⟨rfl, fun hquote => absurd hquote (by decide), by decide⟩
  · rw [heq] at h
    obtain rfl := (List.cons_prefix_cons.mp h).1
    exact .inr ⟨rfl, fun _ => hrun, by decide⟩
  · obtain ⟨_, _, hcode, _⟩ := code_spec hcoded
    rw [heq, hcode] at h
    exact .inl (List.cons_prefix_cons.mp h).1
  · rw [heq] at h
    obtain rfl := (List.cons_prefix_cons.mp h).1
    refine .inr ⟨rfl, fun hquote => absurd (.inl hquote) hplain, ?_⟩
    rintro rfl
    exact hplain (.inr (.inr (.inl (by decide))))

/-- After a quote two more follow only at the end. -/
theorem eq_of_quotes {run : Nat} (hrun : 0 < run) {cs closing : List Char}
    (h : ['"', '"'] <+: escaped true run cs ++ closing) : cs = [] ∨ cs = ['"'] ∧ run < 2 := by
  cases cs with
  | nil => exact .inl rfl
  | cons c cs =>
    right
    have hone : ['"'] <+: ['"', '"'] := ⟨['"'], rfl⟩
    obtain hslash | ⟨rfl, hlt, _⟩ := head_escaped (hone.trans h)
    · exact absurd hslash (by decide)
    rw [escaped_quote (hlt rfl), List.cons_append] at h
    have hnext := (List.cons_prefix_cons.mp h).2
    cases cs with
    | nil => exact ⟨rfl, hlt rfl⟩
    | cons d cs =>
      obtain hslash | ⟨_, hlt', _⟩ := head_escaped hnext
      · exact absurd hslash (by decide)
      · have := hlt' rfl
        omega

theorem longBody_three {rest : List Char} (h : rest.head? ≠ some '"') :
    longBody .no ('"' :: '"' :: '"' :: rest) = some ([], rest) := by
  rw [longBody]
  all_goals
    rintro more rfl
    exact h rfl

theorem longBody_four {rest : List Char} (h : rest.head? ≠ some '"') :
    longBody .no ('"' :: '"' :: '"' :: '"' :: rest) = some (['"'], rest) := by
  rw [longBody]
  rintro more rfl
  exact h rfl

theorem longBody_five (rest : List Char) :
    longBody .no ('"' :: '"' :: '"' :: '"' :: '"' :: rest) = some (['"', '"'], rest) := by
  rw [longBody]

theorem longBody_escaped {rest : List Char} (hrest : rest.head? ≠ some '"') (run : Nat)
    (cs : List Char) :
    longBody .no (escaped true run cs ++ '"' :: '"' :: '"' :: rest) = some (cs, rest) := by
  induction cs generalizing run with
  | nil => exact longBody_three hrest
  | cons c cs ih =>
    obtain ⟨rfl, heq⟩ | ⟨rfl, hrun, heq⟩ | ⟨hcoded, _, heq⟩ | ⟨hplain, heq⟩ :=
      escaped_cases run c cs
    · rw [heq]
      exact longBody_break (ih 0)
    · rw [heq]
      by_cases hquotes : ['"', '"'] <+: escaped true (run + 1) cs ++ '"' :: '"' :: '"' :: rest
      · obtain rfl | ⟨rfl, hlt⟩ := eq_of_quotes (Nat.succ_pos run) hquotes
        · exact longBody_four hrest
        · rw [escaped_quote hlt]
          exact longBody_five rest
      · exact longBody_plain rfl (by decide) (fun _ => hquotes) (ih _)
    · obtain ⟨d, after, hcode, hspace, hline, hreturn, hescape⟩ := code_spec hcoded
      rw [heq, hcode, List.append_assoc, List.cons_append]
      exact longBody_escape (foldsLine_cons hspace hline hreturn _) (hescape _) (ih 0)
    · rw [heq, List.cons_append]
      refine longBody_plain (isPlain_of_not_isCoded hplain) ?_ ?_ (ih 0)
      · rintro rfl
        exact hplain (.inr (.inl rfl))
      · rintro rfl
        exact absurd (.inl rfl) hplain

/-- One more character for the longest run and the current one. -/
def runStep (c : Char) (r : Nat × Nat) (d : Char) : Nat × Nat :=
  if d = c then (max r.1 (r.2 + 1), r.2 + 1) else (r.1, 0)

theorem longestRun_eq (c : Char) (cs : List Char) :
    longestRun c cs = (cs.foldl (runStep c) (0, 0)).1 := rfl

theorem le_foldl_runStep (c : Char) (cs : List Char) (r : Nat × Nat) :
    r.1 ≤ (cs.foldl (runStep c) r).1 := by
  induction cs generalizing r with
  | nil => exact Nat.le_refl _
  | cons d cs ih =>
    refine Nat.le_trans ?_ (ih (runStep c r d))
    unfold runStep
    split
    · exact Nat.le_max_left _ _
    · exact Nat.le_refl _

theorem foldl_runStep_le (c : Char) (cs : List Char) (r : Nat × Nat) (h : r.2 ≤ r.1) :
    (cs.foldl (runStep c) r).2 ≤ (cs.foldl (runStep c) r).1 := by
  induction cs generalizing r with
  | nil => exact h
  | cons d cs ih =>
    refine ih _ ?_
    unfold runStep
    split
    · exact Nat.le_max_right _ _
    · exact Nat.zero_le _

theorem le_foldl_replicate (c : Char) (k : Nat) (r : Nat × Nat) (h : r.2 ≤ r.1) :
    r.2 + k ≤ ((List.replicate k c).foldl (runStep c) r).1 := by
  induction k generalizing r with
  | zero => exact h
  | succ k ih =>
    have hstep : runStep c r c = (max r.1 (r.2 + 1), r.2 + 1) := if_pos rfl
    have hk := ih (max r.1 (r.2 + 1), r.2 + 1) (Nat.le_max_right _ _)
    rw [List.replicate_succ, List.foldl_cons, hstep]
    omega

/-- As many of a character in a row as stand anywhere are in the longest run. -/
theorem le_longestRun {c : Char} {cs : List Char} {k : Nat} (h : List.replicate k c <:+: cs) :
    k ≤ longestRun c cs := by
  obtain ⟨front, back, rfl⟩ := h
  rw [longestRun_eq, List.foldl_append, List.foldl_append]
  have hfront := foldl_runStep_le c front (0, 0) (Nat.le_refl 0)
  have hrun := le_foldl_replicate c k _ hfront
  have hback := le_foldl_runStep c back ((List.replicate k c).foldl (runStep c)
    (front.foldl (runStep c) (0, 0)))
  omega

theorem longLiteralBody_plain {c : Char} {rest s more : List Char} (hplain : c = '\n' ∨ isPlain c)
    (hquote : c = '\x27' → ¬ ['\x27', '\x27'] <+: rest)
    (hrest : longLiteralBody rest = some (s, more)) :
    longLiteralBody (c :: rest) = some (c :: s, more) := by
  rw [longLiteralBody]
  · simp only [hplain, if_true, hrest, Option.bind_eq_bind, Option.bind_some, Option.pure_def]
  · rintro _ rfl rfl
    exact hquote rfl ⟨_, rfl⟩
  · rintro _ rfl rfl
    exact hquote rfl ⟨_, rfl⟩
  · rintro _ rfl rfl
    exact hquote rfl ⟨_, rfl⟩
  · rintro _ rfl
    exact absurd hplain (by decide)

theorem longLiteralBody_four {rest : List Char} (h : rest.head? ≠ some '\x27') :
    longLiteralBody ('\x27' :: '\x27' :: '\x27' :: '\x27' :: rest) = some (['\x27'], rest) := by
  rw [longLiteralBody]
  rintro more rfl
  exact h rfl

theorem longLiteralBody_five (rest : List Char) :
    longLiteralBody ('\x27' :: '\x27' :: '\x27' :: '\x27' :: '\x27' :: rest) =
      some (['\x27', '\x27'], rest) := by
  rw [longLiteralBody]

theorem longLiteralBody_append {cs rest : List Char} (hplain : ∀ c ∈ cs, c = '\n' ∨ isPlain c)
    (hrun : ¬ ['\x27', '\x27', '\x27'] <:+: cs) (hrest : rest.head? ≠ some '\x27') :
    longLiteralBody (cs ++ '\x27' :: '\x27' :: '\x27' :: rest) = some (cs, rest) := by
  induction cs with
  | nil =>
    rw [List.nil_append, longLiteralBody]
    all_goals
      rintro more rfl
      exact hrest rfl
  | cons c cs ih =>
    obtain ⟨hc, hcs⟩ := List.forall_mem_cons.mp hplain
    have ih := ih hcs fun hwithin => hrun (hwithin.trans (List.suffix_cons c cs).isInfix)
    by_cases hquotes : c = '\x27' ∧ ['\x27', '\x27'] <+: cs ++ '\x27' :: '\x27' :: '\x27' :: rest
    · obtain ⟨rfl, hquotes⟩ := hquotes
      match cs with
      | [] => exact longLiteralBody_four hrest
      | [d] =>
        obtain rfl := (List.cons_prefix_cons.mp hquotes).1
        exact longLiteralBody_five rest
      | d :: e :: cs =>
        obtain ⟨rfl, hquote⟩ := List.cons_prefix_cons.mp hquotes
        obtain rfl := (List.cons_prefix_cons.mp hquote).1
        exact absurd ⟨[], cs, rfl⟩ hrun
    · exact longLiteralBody_plain hc (fun hquote hstarts => hquotes ⟨hquote, hstarts⟩) ih

/-! ### Any form -/

theorem isPlain_of_not_needsCode {c : Char} (h : needsCode c = false) : c = '\n' ∨ isPlain c := by
  simp only [needsCode, Bool.and_eq_false_iff, Bool.or_eq_false_iff, bne_eq_false_iff_eq,
    decide_eq_false_iff_not, beq_eq_false_iff_ne, Nat.not_lt] at h
  obtain (rfl | rfl) | ⟨hlow, hdelete⟩ := h
  · exact .inr rfl
  · exact .inl rfl
  · exact .inr (by simp [isPlain, hlow, hdelete])

theorem not_mem_of_longestRun {c : Char} {cs : List Char} (h : longestRun c cs = 0) : c ∉ cs := by
  intro hc
  obtain ⟨front, back, rfl⟩ := List.mem_iff_append.mp hc
  have hone : List.replicate 1 c <:+: front ++ c :: back := ⟨front, back, by simp⟩
  have hrun := le_longestRun hone
  omega

/-- What the text allows for the form it is given. -/
theorem choose_spec (cs : List Char) :
    Form.choose cs = .basic ∨
      (Form.choose cs = .literal ∧ cs ≠ [] ∧ ∀ c ∈ cs, isPlain c ∧ c ≠ '\x27') ∨
      Form.choose cs = .longBasic ∨
      (Form.choose cs = .longLiteral ∧ (∀ c ∈ cs, c = '\n' ∨ isPlain c) ∧
        ¬ ['\x27', '\x27', '\x27'] <:+: cs) := by
  have hplain : cs.any needsCode = false → ∀ c ∈ cs, c = '\n' ∨ isPlain c := fun hcodes c hc =>
    isPlain_of_not_needsCode (by simpa using List.any_eq_false.mp hcodes c hc)
  unfold Form.choose
  simp only
  split
  · exact .inl rfl
  rename_i hbasic
  split
  · rename_i h
    simp only [Bool.and_eq_true, Bool.not_eq_true', beq_iff_eq] at h
    obtain ⟨⟨hcodes, hsingles⟩, hbreaks⟩ := h
    refine .inr (.inl ⟨rfl, ?_, fun c hc => ⟨?_, ?_⟩⟩)
    · rintro rfl
      exact hbasic rfl
    · refine (hplain hcodes c hc).resolve_left ?_
      rintro rfl
      simp [hc] at hbreaks
    · rintro rfl
      exact not_mem_of_longestRun hsingles hc
  split
  · exact .inr (.inr (.inl rfl))
  split
  · rename_i h
    simp only [Bool.and_eq_true, Bool.not_eq_true', decide_eq_true_eq] at h
    obtain ⟨hcodes, hsingles⟩ := h
    refine .inr (.inr (.inr ⟨rfl, hplain hcodes, fun hwithin => ?_⟩))
    have hrun := le_longestRun (k := 3) hwithin
    omega
  split
  · exact .inr (.inr (.inl rfl))
  · exact .inl rfl

/-- The line break right after the opening quotes is dropped, and no other one is. -/
theorem dropBreak_append {cs text : List Char}
    (h : cs.contains '\n' = false → ¬ ['\n'] <+: text ∧ ¬ ['\r'] <+: text) :
    dropBreak ((if cs.contains '\n' then ['\n'] else []) ++ text) = text := by
  cases hbreak : cs.contains '\n' with
  | true => rfl
  | false =>
    obtain ⟨hline, hreturn⟩ := h hbreak
    simp only [Bool.false_eq_true, if_false, List.nil_append]
    rw [dropBreak]
    · rintro rest rfl
      exact hline ⟨rest, rfl⟩
    · rintro rest rfl
      exact hreturn ⟨_, rfl⟩

theorem not_break_escaped {cs : List Char} (h : cs.contains '\n' = false) (closing : List Char) :
    ¬ ['\n'] <+: escaped true 0 cs ++ '"' :: closing ∧
      ¬ ['\r'] <+: escaped true 0 cs ++ '"' :: closing := by
  cases cs with
  | nil =>
    constructor <;>
      exact fun hstarts => absurd (List.cons_prefix_cons.mp hstarts).1 (by decide)
  | cons c cs =>
    refine ⟨fun hstarts => ?_, fun hstarts => ?_⟩
    · obtain hslash | ⟨rfl, _⟩ := head_escaped hstarts
      · exact absurd hslash (by decide)
      · simp at h
    · obtain hslash | ⟨_, _, hreturn⟩ := head_escaped hstarts
      · exact absurd hslash (by decide)
      · exact hreturn rfl

theorem string_double {cs : List Char} (h : ¬ ['"', '"'] <+: cs) :
    string ('"' :: cs) = (basicBody cs).map (fun (s, rest) => (.ofList s, rest)) := by
  unfold string
  split
  · rename_i heq
    obtain rfl := (List.cons.inj heq).2
    exact absurd ⟨_, rfl⟩ h
  · rename_i heq
    obtain rfl := (List.cons.inj heq).2
    rfl
  · rename_i heq
    exact absurd (List.cons.inj heq).1 (by decide)
  · rename_i heq
    exact absurd (List.cons.inj heq).1 (by decide)
  · rename_i _ hdouble _ _
    exact absurd rfl (hdouble cs)

theorem string_single {cs : List Char} (h : ¬ ['\x27', '\x27'] <+: cs) :
    string ('\x27' :: cs) = (literalBody cs).map (fun (s, rest) => (.ofList s, rest)) := by
  unfold string
  split
  · rename_i heq
    exact absurd (List.cons.inj heq).1 (by decide)
  · rename_i heq
    exact absurd (List.cons.inj heq).1 (by decide)
  · rename_i heq
    obtain rfl := (List.cons.inj heq).2
    exact absurd ⟨_, rfl⟩ h
  · rename_i heq
    obtain rfl := (List.cons.inj heq).2
    rfl
  · rename_i _ _ _ hsingle
    exact absurd rfl (hsingle cs)

theorem not_quotes_escaped {cs rest : List Char} (hrest : rest.head? ≠ some '"') :
    ¬ ['"', '"'] <+: escaped false 0 cs ++ '"' :: rest := by
  intro hstarts
  cases cs with
  | nil =>
    obtain ⟨more, hmore⟩ := (List.cons_prefix_cons.mp hstarts).2
    exact hrest (hmore ▸ rfl)
  | cons c cs =>
    by_cases h : IsCoded c
    · obtain ⟨_, _, hcode, _⟩ := code_spec h
      rw [escaped_code h (by simp) (by simp), hcode] at hstarts
      exact absurd (List.cons_prefix_cons.mp hstarts).1 (by decide)
    · rw [escaped_plain h] at hstarts
      exact h (.inl (List.cons_prefix_cons.mp hstarts).1.symm)

theorem not_quotes_literal {cs : List Char} (hne : cs ≠ []) (hcs : ∀ c ∈ cs, c ≠ '\x27')
    (rest : List Char) : ¬ ['\x27', '\x27'] <+: cs ++ rest := by
  intro hstarts
  obtain ⟨c, cs, rfl⟩ := List.exists_cons_of_ne_nil hne
  exact hcs c List.mem_cons_self (List.cons_prefix_cons.mp hstarts).1.symm

theorem not_break_literal {cs : List Char} (h : cs.contains '\n' = false)
    (hplain : ∀ c ∈ cs, c = '\n' ∨ isPlain c) (closing : List Char) :
    ¬ ['\n'] <+: cs ++ '\x27' :: closing ∧ ¬ ['\r'] <+: cs ++ '\x27' :: closing := by
  cases cs with
  | nil =>
    constructor <;>
      exact fun hstarts => absurd (List.cons_prefix_cons.mp hstarts).1 (by decide)
  | cons c cs =>
    refine ⟨fun hstarts => ?_, fun hstarts => ?_⟩
    · obtain rfl := (List.cons_prefix_cons.mp hstarts).1
      simp at h
    · obtain rfl := (List.cons_prefix_cons.mp hstarts).1
      exact absurd (hplain _ List.mem_cons_self) (by decide)

/-- A string is read back before anything but a quote. -/
theorem string_quoted (s : String) {rest : List Char} (hdouble : rest.head? ≠ some '"')
    (hsingle : rest.head? ≠ some '\x27') : string (quoted s ++ rest) = some (s, rest) := by
  obtain ⟨cs, rfl⟩ : ∃ cs, s = String.ofList cs := ⟨s.toList, s.ofList_toList.symm⟩
  unfold quoted
  simp only [String.toList_ofList]
  obtain hform | ⟨hform, hne, hplain⟩ | hform | ⟨hform, hplain, hrun⟩ := choose_spec cs
  · simp only [hform, List.cons_append, List.append_assoc, List.nil_append]
    rw [string_double (not_quotes_escaped hdouble), basicBody_escaped]
    rfl
  · simp only [hform, List.cons_append, List.append_assoc, List.nil_append]
    rw [string_single (not_quotes_literal hne (fun c hc => (hplain c hc).2) _),
      literalBody_append hplain]
    rfl
  · simp only [hform, List.cons_append, List.append_assoc, List.nil_append]
    change Option.map _ (longBody .no (dropBreak _)) = _
    rw [dropBreak_append (fun hbreak => not_break_escaped hbreak _), longBody_escaped hdouble]
    rfl
  · simp only [hform, List.cons_append, List.append_assoc, List.nil_append]
    change Option.map _ (longLiteralBody (dropBreak _)) = _
    rw [dropBreak_append (fun hbreak => not_break_literal hbreak hplain _),
      longLiteralBody_append hplain hrun hsingle]
    rfl

/-- A written string begins with a quote. -/
theorem quoted_eq_cons (s : String) : ∃ c cs, quoted s = c :: cs ∧ (c = '"' ∨ c = '\x27') := by
  unfold quoted
  simp only
  split
  · exact ⟨_, _, rfl, .inl rfl⟩
  · exact ⟨_, _, rfl, .inr rfl⟩
  · exact ⟨_, _, rfl, .inl rfl⟩
  · exact ⟨_, _, rfl, .inr rfl⟩

end RetentionJobs.Toml
