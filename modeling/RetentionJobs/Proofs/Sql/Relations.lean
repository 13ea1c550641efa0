import RetentionJobs.Proofs.Sql.Numbers
/-! The relations that SQL text names. A bare word stands for itself in lower case and a quoted name
for itself as it is written, so letter case is lost in bare words only. -/
namespace RetentionJobs.Sql

/-- A bare word as the database reads it. -/
def fold (word : List Char) : List Char := word.map Char.toLower

/-- A table in a schema. -/
structure Relation where
  schema : List Char
  table : List Char
  deriving DecidableEq, Repr

/-- What a name stands for. -/
def denotation? : Lexeme → Option (List Char)
  | .word w => some (fold w)
  | .quoted name => some name
  | _ => none

/-- A space, a schema, a dot and a table. -/
def relation? : List Lexeme → Option Relation
  | .sign ' ' :: schema :: .sign '.' :: table :: _ => do
    return ⟨← denotation? schema, ← denotation? table⟩
  | _ => none

/-- The word that a relation is named after. -/
def fromWord : List Char := "from".toList

/-- The relations with a schema that are named right after the word `from`. -/
def relations : List Lexeme → List Relation
  | [] => []
  | l :: ls => if l = .word fromWord then (relation? ls).toList ++ relations ls else relations ls

/-- The relations that a text and the bodies inside of it name. -/
def relationsOf (text : String) : Option (List Relation) :=
  (scanThrough text.toList).map relations

theorem relations_append_of_not_mem {ls : List Lexeme} (h : .word fromWord ∉ ls)
    (rest : List Lexeme) : relations (ls ++ rest) = relations rest := by
  induction ls with
  | nil => rfl
  | cons l ls ih =>
    have hl : l ≠ .word fromWord := fun he => h (he ▸ List.mem_cons_self)
    rw [List.cons_append, relations, if_neg hl, ih fun hmem => h (List.mem_cons_of_mem l hmem)]

/-- The schema is no place for another relation, even if it is the word `from` itself. -/
theorem relations_from (schema table : List Char) (rest : List Lexeme) :
    relations (.word fromWord :: .sign ' ' :: .word schema :: .sign '.' :: .quoted table ::
      rest) = ⟨fold schema, table⟩ :: relations rest := by
  have hdot : relations (.word schema :: .sign '.' :: .quoted table :: rest) = relations rest := by
    have hnone : relation? (.sign '.' :: .quoted table :: rest) = none := rfl
    simp [relations, hnone]
  rw [relations, if_pos rfl, relations, if_neg (by simp), hdot]
  rfl

theorem toLower_eq_self_iff {c : Char} : c.toLower = c ↔ c.isUpper = false := by
  have hupper : c.isUpper = decide (c.val ≥ 65 ∧ c.val ≤ 90) := rfl
  rw [hupper, decide_eq_false_iff_not]
  by_cases h : c.val ≥ 65 ∧ c.val ≤ 90
  · have hlower : c.toLower.val = c.val + 32 := congrArg Char.val (dif_pos h)
    refine iff_of_false (fun he => ?_) (not_not.mpr h)
    rw [he] at hlower
    simp at hlower
  · exact iff_of_true (dif_neg h) h

/-- Folding keeps a word exactly when it has no capital letter. -/
theorem fold_eq_self_iff {word : List Char} : fold word = word ↔ ∀ c ∈ word, c.isUpper = false := by
  induction word with
  | nil => simp [fold]
  | cons c cs ih =>
    rw [fold, List.map_cons, List.cons_eq_cons, toLower_eq_self_iff, ← fold, ih,
      List.forall_mem_cons]

end RetentionJobs.Sql
