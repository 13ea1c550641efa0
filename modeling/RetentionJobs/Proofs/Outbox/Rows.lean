import Mathlib.Data.List.Basic
import RetentionJobs.Outbox.Store
/-! Repositories that write down each statement they acknowledge, and nothing else. An outbox is
one. -/
namespace RetentionJobs

/-- Submitting a statement either adds it to the rows and is acknowledged, or fails and leaves the
rows as they are. -/
structure Repository.Records {σ : Type} (repository : Repository σ) (rows : σ → List String) :
    Prop where
  ok {statement : String} {s : σ} {n : Nat} (h : (repository.submit statement s).1 = .ok n) :
    rows (repository.submit statement s).2 = rows s ++ [statement]
  error {statement : String} {s : σ} {e : RepositoryError}
    (h : (repository.submit statement s).1 = .error e) :
    rows (repository.submit statement s).2 = rows s

theorem Volume.get?_put (v : Volume) (loc : Location) (node : Node) :
    (v.put loc node).get? loc = some node := by
  simp [Volume.put, Volume.get?]

namespace Outbox

theorem Handle.table_setTable (h : Handle) (t : Option Table) (v : Volume) :
    (h.setTable t v).1.table (h.setTable t v).2 = .ok t := by
  unfold Handle.setTable
  split
  · simp only [Handle.table]
  · rename_i loc htarget
    simp only [Handle.table, htarget, Volume.get?_put]

/-- A row is inserted at the end of a table. -/
theorem Table.eq_append_of_insert {t t' : Table} {row : Row} (h : t.insert row = .ok t') :
    t' = t ++ [row] := by
  unfold Table.insert at h
  split at h
  · cases h
  · exact (Except.ok.inj h).symm

theorem Handle.eq_setTable_of_insert {h h' : Handle} {row : Row} {v v' : Volume}
    (hinsert : h.insert row v = .ok (h', v')) :
    ∃ t, h.table v = .ok (some t) ∧ h.setTable (some (t ++ [row])) v = (h', v') := by
  unfold Handle.insert at hinsert
  split at hinsert
  · cases hinsert
  · cases hinsert
  · rename_i t htable
    split at hinsert
    · cases hinsert
    · rename_i t' ht'
      obtain rfl := Table.eq_append_of_insert ht'
      exact ⟨t, htable, Except.ok.inj hinsert⟩

theorem Handle.table_of_insert {h h' : Handle} {row : Row} {v v' : Volume}
    (hinsert : h.insert row v = .ok (h', v')) :
    ∃ t, h.table v = .ok (some t) ∧ h'.table v' = .ok (some (t ++ [row])) := by
  obtain ⟨t, htable, hset⟩ := eq_setTable_of_insert hinsert
  have hset' := h.table_setTable (some (t ++ [row])) v
  rw [hset] at hset'
  exact ⟨t, htable, hset'⟩

namespace Session

/-- The statements that have been written, in the order in which they were. -/
def rows (s : Session) : List String :=
  match s.handle.table s.volume with
  | .ok (some t) => t.map (·.statement)
  | _ => []

theorem rows_of_table {s : Session} {t : Table} (h : s.handle.table s.volume = .ok (some t)) :
    s.rows = t.map (·.statement) := by
  simp only [rows, h]

end Session

/-- An outbox writes down what it acknowledges, whatever has become of its file. -/
theorem records_rows : repository.Records Session.rows where
  ok {statement s n} h := by
    simp only [repository, Session.submit] at h ⊢
    split at h
    · cases h
    · rename_i h' v' hinsert
      obtain ⟨t, htable, htable'⟩ := Handle.table_of_insert hinsert
      rw [Session.rows_of_table htable]
      simp only [Session.rows, htable', List.map_append, List.map_singleton]
  error {statement s e} h := by
    simp only [repository, Session.submit] at h ⊢
    split at h
    · simp only [Session.rows]
    · cases h

end Outbox
end RetentionJobs
