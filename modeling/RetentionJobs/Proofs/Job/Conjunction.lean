import RetentionJobs.Proofs.Job.Quoting
import RetentionJobs.Proofs.Text.Separators
/-! The condition of a job is the conjunction of its filters and nothing else. Conditions of two
lists are joined to the condition of both, and the first bad column is named by its place in the
whole list. -/
namespace RetentionJobs.Job
open RetentionJobs.Text RetentionJobs.Outcome

/-- The second adjustment is the first one of a filter that stands `shift` places further on. -/
def Adjustment.IsMoved (shift : Nat) (a b : Adjustment) : Prop :=
  ∃ i, a.field = filterField i "days" ∧ b = { a with field := filterField (i + shift) "days" }

variable {t : Template} {th : Thresholds}

/-! The separator is in no clause, and no clause makes up a part of it. -/

theorem avoids_retentionClause {column : String} (days : Int)
    (hcolumn : checkIdentifier column = .ok ()) :
    Avoids " AND ".toList (({} : Template).retentionClause column days).toList := by
  have htext : (({} : Template).retentionClause column days).toList =
      "om.\"".toList ++ (column.toList ++
        ("\" AT TIME ZONE 'UTC' < NOW() AT TIME ZONE 'UTC' - INTERVAL '".toList ++
          (decimal days ++ " days'".toList))) := by
    simp [Template.retentionClause, intText]
  have hname : ' ' ∉ column.toList := not_mem_of_checkIdentifier hcolumn rfl
  have hdays : ' ' ∉ decimal days := not_mem_decimal rfl (by decide)
  have hfront : Avoids " AND ".toList "om.\"".toList := by decide +kernel
  have hmiddle : Avoids " AND ".toList
      "\" AT TIME ZONE 'UTC' < NOW() AT TIME ZONE 'UTC' - INTERVAL '".toList := by decide +kernel
  have hback : Avoids " AND ".toList " days'".toList := by decide +kernel
  rw [htext]
  exact hfront.append ((avoids_of_not_mem hname).append (hmiddle.append
    ((avoids_of_not_mem hdays).append hback)))

theorem cutAt_clauses {filters : List Filter} (hne : filters ≠ [])
    (hcolumns : ∀ f ∈ filters, checkIdentifier f.column = .ok ()) :
    cutAt " AND ".toList (" AND ".intercalate (clausesOf {} th filters)).toList =
      (clausesOf {} th filters).map String.toList := by
  rw [String.toList_intercalate]
  apply cutAt_join (by decide)
  · simpa [clausesOf] using hne
  · simp only [clausesOf, List.map_map, List.forall_mem_map]
    intro f hf
    exact avoids_retentionClause _ (hcolumns f hf)

/-! Lists of filters, one after the other. -/

theorem raisedDays_cons (index : Nat) (f : Filter) (filters : List Filter) :
    raisedDays th index (f :: filters) =
      ((th.days f.days).adjustment? (filterField index "days")).toList ++
        raisedDays th (index + 1) filters := rfl

theorem raisedDays_append (index : Nat) (fs gs : List Filter) :
    raisedDays th index (fs ++ gs) =
      raisedDays th index fs ++ raisedDays th (index + fs.length) gs := by
  simp only [raisedDays, List.zipIdx_append, List.flatMap_append]

theorem isMoved_raisedDays (shift index : Nat) (filters : List Filter) :
    List.Forall₂ (Adjustment.IsMoved shift) (raisedDays th index filters)
      (raisedDays th (index + shift) filters) := by
  induction filters generalizing index with
  | nil => exact .nil
  | cons f filters ih =>
    have hrest := ih (index + 1)
    rw [Nat.add_right_comm] at hrest
    rw [raisedDays_cons, raisedDays_cons]
    unfold Clamped.adjustment?
    split
    · exact .cons ⟨index, rfl, rfl⟩ hrest
    · exact hrest

theorem exists_condition_iff {filters : List Filter} (hne : filters ≠ []) :
    (∃ cond, condition t th filters = .ok cond) ↔
      ∀ f ∈ filters, checkIdentifier f.column = .ok () := by
  simp [condition_eq_ok_iff, hne]

theorem condition_append {fs gs : List Filter} {front back : Condition}
    (hfront : condition t th fs = .ok front) (hback : condition t th gs = .ok back) :
    condition t th (fs ++ gs) = .ok ⟨front.sql ++ " AND " ++ back.sql,
      front.adjustments ++ raisedDays th fs.length gs⟩ := by
  obtain ⟨hfs, hfcolumns, rfl⟩ := condition_eq_ok_iff.mp hfront
  obtain ⟨hgs, hgcolumns, rfl⟩ := condition_eq_ok_iff.mp hback
  have hclauses : ∀ {filters : List Filter}, filters ≠ [] → clausesOf t th filters ≠ [] :=
    fun hne => mt List.map_eq_nil_iff.mp hne
  have hsql : clausesOf t th (fs ++ gs) = clausesOf t th fs ++ clausesOf t th gs :=
    List.map_append
  refine condition_eq_ok_iff.mpr ⟨List.append_ne_nil_of_left_ne_nil hfs gs,
    List.forall_mem_append.mpr ⟨hfcolumns, hgcolumns⟩, ?_⟩
  rw [hsql, String.intercalate_append_of_ne_nil (hclauses hfs) (hclauses hgs), raisedDays_append,
    Nat.zero_add]

/-- Cut at every ` AND `, the condition of some filters is their clauses, in order, with the days
that are applied. Two lists have a condition together when each has one: it is the two joined, and
the raised days are those of the first list and, further on, those of the second. A list without a
condition has a bad column, and the first one is named by its place. -/
theorem condition_conjunction (th : Thresholds) :
    (∀ filters, filters ≠ [] → (∀ f ∈ filters, checkIdentifier f.column = .ok ()) →
      ∃ cond, condition {} th filters = .ok cond ∧
        (cutAt " AND ".toList cond.sql.toList).map String.ofList = filters.map (fun f =>
          ({} : Template).retentionClause f.column (max f.days th.minDays))) ∧
    (∀ t fs gs, fs ≠ [] → gs ≠ [] →
      ((∃ cond, condition t th (fs ++ gs) = .ok cond) ↔
        (∃ cond, condition t th fs = .ok cond) ∧ ∃ cond, condition t th gs = .ok cond) ∧
      ∀ front back, condition t th fs = .ok front → condition t th gs = .ok back →
        ∃ moved, List.Forall₂ (Adjustment.IsMoved fs.length) back.adjustments moved ∧
          condition t th (fs ++ gs) =
            .ok ⟨front.sql ++ " AND " ++ back.sql, front.adjustments ++ moved⟩) ∧
    ∀ t filters e, filters ≠ [] → (condition t th filters = .error e ↔
      ∃ good bad rest fault, filters = good ++ bad :: rest ∧
        (∀ f ∈ good, checkIdentifier f.column = .ok ()) ∧
        checkIdentifier bad.column = .error fault ∧
        e = .invalidName (filterField good.length "column") bad.column fault.reason) := by
  refine ⟨?_, ?_, fun t filters e hne => condition_eq_error_iff hne⟩
  · intro filters hne hcolumns
    refine ⟨_, condition_eq_ok_iff.mpr ⟨hne, hcolumns, rfl⟩, ?_⟩
    rw [cutAt_clauses hne hcolumns, List.map_map]
    simp [clausesOf, Thresholds.days, clamp]
  · intro t fs gs hfs hgs
    constructor
    · have hne : fs ++ gs ≠ [] := List.append_ne_nil_of_left_ne_nil hfs gs
      rw [exists_condition_iff hne, exists_condition_iff hfs, exists_condition_iff hgs,
        List.forall_mem_append]
    · intro front back hfront hback
      refine ⟨_, ?_, condition_append hfront hback⟩
      obtain ⟨_, _, rfl⟩ := condition_eq_ok_iff.mp hback
      simpa using isMoved_raisedDays fs.length 0 gs

/-- Days are raised in either list, and the third column is bad. -/
theorem condition_conjunction_outbox :
    (∃ cond, condition {} {} [⟨"SentAt", 10⟩, ⟨"CreatedAt", 90⟩, ⟨"ReadAt", 5⟩] = .ok cond ∧
      (cutAt " AND ".toList cond.sql.toList).map String.ofList =
        [({} : Template).retentionClause "SentAt" 60,
          ({} : Template).retentionClause "CreatedAt" 90,
          ({} : Template).retentionClause "ReadAt" 60]) ∧
    (∃ front back moved, condition {} {} [⟨"SentAt", 10⟩, ⟨"CreatedAt", 90⟩] = .ok front ∧
      condition {} {} [⟨"ReadAt", 5⟩] = .ok back ∧
      List.Forall₂ (Adjustment.IsMoved 2) [⟨"filters[0].days", some 5, 60⟩] moved ∧
      condition {} {} ([⟨"SentAt", 10⟩, ⟨"CreatedAt", 90⟩] ++ [⟨"ReadAt", 5⟩]) =
        .ok ⟨front.sql ++ " AND " ++ back.sql, ⟨"filters[0].days", some 10, 60⟩ :: moved⟩) ∧
    condition {} {} [⟨"SentAt", 10⟩, ⟨"CreatedAt", 90⟩, ⟨"Read At", 5⟩] =
      .error (.invalidName "filters[2].column" "Read At" (NameFault.badCharacter ' ').reason) := by
  have hcolumns : ∀ column ∈ ["SentAt", "CreatedAt", "ReadAt"],
      checkIdentifier column = .ok () := by
    decide +kernel
  obtain ⟨hpieces, happend, herror⟩ := condition_conjunction {}
  refine ⟨hpieces _ (by decide) (by simpa using hcolumns), ?_, ?_⟩
  · have hfront : condition {} {} [⟨"SentAt", 10⟩, ⟨"CreatedAt", 90⟩] = .ok _ :=
      condition_eq_ok_iff.mpr ⟨by decide, by simp_all, rfl⟩
    have hback : condition {} {} [⟨"ReadAt", 5⟩] = .ok _ :=
      condition_eq_ok_iff.mpr ⟨by decide, by simp_all, rfl⟩
    have hraised : raisedDays {} 0 [⟨"SentAt", 10⟩, ⟨"CreatedAt", 90⟩] =
        [⟨"filters[0].days", some 10, 60⟩] := by decide +kernel
    have hraised' : raisedDays {} 0 [⟨"ReadAt", 5⟩] = [⟨"filters[0].days", some 5, 60⟩] := by
      decide +kernel
    obtain ⟨moved, hmoved, hboth⟩ :=
      (happend {} _ _ (by decide) (by decide)).2 _ _ hfront hback
    simp only [hraised, hraised'] at hmoved hboth
    exact ⟨_, _, moved, hfront, hback, hmoved, hboth⟩
  · refine (herror {} _ _ (by decide)).mpr ⟨[⟨"SentAt", 10⟩, ⟨"CreatedAt", 90⟩], ⟨"Read At", 5⟩, [],
      .badCharacter ' ', rfl, by simp_all, by decide +kernel, ?_⟩
    decide +kernel

end RetentionJobs.Job
