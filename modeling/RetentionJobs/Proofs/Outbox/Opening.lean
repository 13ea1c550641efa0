import RetentionJobs.Proofs.Outbox.Rows
import RetentionJobs.Proofs.Outcome
/-! What opening an outbox does to the volume. No table is touched, except that a database without
one gets an empty one. -/
namespace RetentionJobs

namespace Volume

theorem lookup_filter_of_ne {loc loc' : Location} (h : loc' ≠ loc)
    (nodes : List (Location × Node)) :
    (nodes.filter (fun e => e.1 != loc)).lookup loc' = nodes.lookup loc' := by
  induction nodes with
  | nil => rfl
  | cons e nodes ih =>
    obtain ⟨place, node⟩ := e
    by_cases hplace : place = loc
    · have hne : (loc' == place) = false := beq_eq_false_iff_ne.mpr (hplace ▸ h)
      rw [List.filter_cons_of_neg (by simp [hplace]), ih, List.lookup_cons, hne]
    · rw [List.filter_cons_of_pos (by simp [hplace]), List.lookup_cons, List.lookup_cons, ih]

theorem get?_put_of_ne {loc loc' : Location} (h : loc' ≠ loc) (v : Volume) (node : Node) :
    (v.put loc node).get? loc' = v.get? loc' := by
  have hne : (loc' == loc) = false := beq_eq_false_iff_ne.mpr h
  have hnodes : (v.put loc node).nodes.lookup loc' = v.nodes.lookup loc' := by
    rw [put, List.lookup_cons, hne, lookup_filter_of_ne h]
  unfold get?
  rw [hnodes]
  rfl

/-- The table in the file at a location, if the file is a database that has one. -/
def tableAt (v : Volume) (loc : Location) : Option Outbox.Table :=
  match v.get? loc with
  | some (.database t) => t
  | _ => none

theorem tableAt_put (v : Volume) (loc : Location) (t : Option Outbox.Table) :
    (v.put loc (.database t)).tableAt loc = t := by
  simp only [tableAt, get?_put]

theorem tableAt_put_of_ne {loc loc' : Location} (h : loc' ≠ loc) (v : Volume) (node : Node) :
    (v.put loc node).tableAt loc' = v.tableAt loc' := by
  simp only [tableAt, get?_put_of_ne h]

/-- A node that has no table, put where nothing was. -/
theorem tableAt_put_of_none {loc : Location} {v : Volume} {node : Node} (h : v.get? loc = none)
    (hnode : node = .directory ∨ node = .database none) (loc' : Location) :
    (v.put loc node).tableAt loc' = v.tableAt loc' := by
  by_cases hloc : loc' = loc
  · subst hloc
    obtain rfl | rfl := hnode <;> simp only [tableAt, get?_put, h]
  · exact tableAt_put_of_ne hloc v node

theorem tableAt_makeAlong {v v' : Volume} {base : Location} {parts : List String}
    (h : v.makeAlong base parts = .ok v') (loc : Location) : v'.tableAt loc = v.tableAt loc := by
  fun_induction makeAlong v base parts with
  | case1 => rw [Except.ok.inj h]
  | case2 v base parts ih => exact ih h
  | case3 v base parts ih => exact ih h
  | case4 v base part parts _ _ loc' _ ih => exact ih h
  | case5 v base part parts _ _ loc' hnone ih =>
    rw [ih h, tableAt_put_of_none hnone (.inl rfl)]
  | case6 => cases h

end Volume

namespace Outbox
open Volume

theorem tableAt_makeParents {v v' : Volume} {path : String} (h : makeParents v path = .ok v')
    (loc : Location) : v'.tableAt loc = v.tableAt loc := by
  unfold makeParents at h
  split at h
  · rw [Except.ok.inj h]
  · rw [Except.ok.inj h]
  · split at h
    · rename_i hmade
      rw [← Except.ok.inj h]
      exact tableAt_makeAlong hmade loc
    · cases h

/-- A name is that of a file, or it stands for a database without one. -/
theorem connect_cases {v v' : Volume} {name : List Char} {target : Target}
    (h : connect v name = .ok (target, v')) :
    ((String.ofList name = "" ∨ String.ofList name = ":memory:") ∧
        target = .detached none ∧ v' = v) ∨
      (¬ (String.ofList name = "" ∨ String.ofList name = ":memory:") ∧
        target = .file (v.locate (String.ofList name)) ∧
        v.isDirectory (v.locate (String.ofList name)).dropLast ∧
        (v' = v ∨ v.get? (v.locate (String.ofList name)) = none ∧
          v' = v.put (v.locate (String.ofList name)) (.database none))) := by
  unfold connect at h
  simp only at h
  split at h
  · rename_i hmemory
    obtain ⟨rfl, rfl⟩ := Prod.mk.inj (Except.ok.inj h)
    exact .inl ⟨hmemory, rfl, rfl⟩
  · rename_i hname
    refine .inr ⟨hname, ?_⟩
    split at h
    · rename_i hdirectory
      split at h
      · cases h
      · obtain ⟨rfl, rfl⟩ := Prod.mk.inj (Except.ok.inj h)
        exact ⟨rfl, hdirectory, .inl rfl⟩
      · rename_i hnone
        obtain ⟨rfl, rfl⟩ := Prod.mk.inj (Except.ok.inj h)
        exact ⟨rfl, hdirectory, .inr ⟨hnone, rfl⟩⟩
    · cases h

theorem tableAt_connect {v v' : Volume} {name : List Char} {target : Target}
    (h : connect v name = .ok (target, v')) (loc : Location) : v'.tableAt loc = v.tableAt loc := by
  obtain ⟨_, _, rfl⟩ | ⟨_, _, _, rfl | ⟨hnone, rfl⟩⟩ := connect_cases h
  · rfl
  · rfl
  · exact tableAt_put_of_none hnone (.inr rfl) loc

namespace Handle

theorem setTable_of_file {h : Handle} {loc : Location} (hfile : h.target = .file loc)
    (t : Option Table) (v : Volume) : h.setTable t v = (h, v.put loc (.database t)) := by
  simp only [setTable, hfile]

theorem setTable_of_detached {h : Handle} {t : Option Table} (hdetached : h.target = .detached t)
    (t' : Option Table) (v : Volume) :
    h.setTable t' v = ({ h with target := .detached t' }, v) := by
  simp only [setTable, hdetached]

/-- Setting a table neither moves the handle to another file nor touches one. -/
theorem setTable_file_iff (h : Handle) (t : Option Table) (v : Volume) (loc : Location) :
    (h.setTable t v).1.target = .file loc ↔ h.target = .file loc := by
  cases htarget : h.target with
  | file loc' => rw [setTable_of_file htarget, htarget]
  | detached t' => simp [setTable_of_detached htarget]

theorem tableAt_setTable_of_ne {h : Handle} {loc : Location} (hother : h.target ≠ .file loc)
    (t : Option Table) (v : Volume) : (h.setTable t v).2.tableAt loc = v.tableAt loc := by
  cases htarget : h.target with
  | file loc' =>
    rw [setTable_of_file htarget]
    exact tableAt_put_of_ne (fun hloc => hother (by rw [htarget, hloc])) v _
  | detached t' => rw [setTable_of_detached htarget]

theorem table_of_file {h : Handle} {loc : Location} (hfile : h.target = .file loc) {v : Volume}
    {t : Option Table} (htable : h.table v = .ok t) : v.tableAt loc = t := by
  simp only [table, hfile] at htable
  split at htable
  · rename_i hnode
    rw [← Except.ok.inj htable, tableAt, hnode]
  · rename_i hnode
    rw [← Except.ok.inj htable, tableAt, hnode]
  · rename_i hnode
    rw [← Except.ok.inj htable, tableAt, hnode]
  · cases htable

theorem table_of_tableAt {h : Handle} {loc : Location} (hfile : h.target = .file loc) {v : Volume}
    {t : Table} (htable : v.tableAt loc = some t) : h.table v = .ok (some t) := by
  unfold tableAt at htable
  split at htable
  · rename_i hnode
    simp only [table, hfile, hnode, htable]
  · cases htable

theorem ensureTable_cases {h h' : Handle} {v v' : Volume} (hok : h.ensureTable v = .ok (h', v')) :
    (∃ t, h.table v = .ok (some t) ∧ h' = h ∧ v' = v) ∨
      h.table v = .ok none ∧ h.setTable (some []) v = (h', v') := by
  unfold ensureTable at hok
  split at hok
  · cases hok
  · rename_i t htable
    obtain ⟨rfl, rfl⟩ := Prod.mk.inj (Except.ok.inj hok)
    exact .inl ⟨t, htable, rfl, rfl⟩
  · rename_i htable
    exact .inr ⟨htable, Except.ok.inj hok⟩

end Handle

/-- The table at a location stays as it is, or is made where there was none. -/
def Keeps (loc : Location) (v v' : Volume) : Prop :=
  v'.tableAt loc = v.tableAt loc ∨ v.tableAt loc = none ∧ v'.tableAt loc = some []

theorem Keeps.getD {loc : Location} {v v' : Volume} (h : Keeps loc v v') :
    (v'.tableAt loc).getD [] = (v.tableAt loc).getD [] := by
  obtain h | ⟨h, h'⟩ := h
  · rw [h]
  · rw [h, h', Option.getD_some, Option.getD_none]

theorem Keeps.exists_table {loc : Location} {v v' : Volume} (h : Keeps loc v v')
    (htable : ∃ t, v.tableAt loc = some t) : ∃ t, v'.tableAt loc = some t := by
  obtain h | ⟨_, h⟩ := h
  · rwa [h]
  · exact ⟨[], h⟩

theorem keeps_ensureTable {h h' : Handle} {v v' : Volume} (hok : h.ensureTable v = .ok (h', v'))
    (loc : Location) : Keeps loc v v' := by
  obtain ⟨_, _, _, rfl⟩ | ⟨hnone, hset⟩ := Handle.ensureTable_cases hok
  · exact .inl rfl
  by_cases hfile : h.target = .file loc
  · rw [Handle.setTable_of_file hfile] at hset
    obtain ⟨_, rfl⟩ := Prod.mk.inj hset
    exact .inr ⟨Handle.table_of_file hfile hnone, tableAt_put v loc _⟩
  · have hkept := Handle.tableAt_setTable_of_ne hfile (some []) v
    rw [hset] at hkept
    exact .inl hkept

/-- An outbox that has been set up has a table. -/
theorem tableAt_ensureTable {h h' : Handle} {v v' : Volume} {loc : Location}
    (hok : h.ensureTable v = .ok (h', v')) (hfile : h'.target = .file loc) :
    ∃ t, v'.tableAt loc = some t := by
  obtain ⟨t, htable, rfl, rfl⟩ | ⟨hnone, hset⟩ := Handle.ensureTable_cases hok
  · exact ⟨t, Handle.table_of_file hfile htable⟩
  · have htable := h.table_setTable (some []) v
    rw [hset] at htable
    exact ⟨[], Handle.table_of_file hfile htable⟩

theorem openAt_eq_ok {v v' : Volume} {path : String} {h : Handle}
    (hopen : openAt v path = (.ok h, v')) :
    ∃ v₁ name target v₂, makeParents v path = .ok v₁ ∧ fileName path = .ok name ∧
      connect v₁ name = .ok (target, v₂) ∧ Handle.ensureTable ⟨path, target⟩ v₂ = .ok (h, v') := by
  unfold openAt at hopen
  split at hopen
  · cases congrArg Prod.fst hopen
  rename_i v₁ hparents
  split at hopen
  · cases congrArg Prod.fst hopen
  rename_i name hname
  split at hopen
  · cases congrArg Prod.fst hopen
  rename_i target v₂ hconnect
  split at hopen
  · cases congrArg Prod.fst hopen
  rename_i h' v₃ hensure
  obtain ⟨hh, rfl⟩ := Prod.mk.inj hopen
  obtain rfl := Except.ok.inj hh
  exact ⟨v₁, name, target, v₂, hparents, hname, hconnect, hensure⟩

theorem keeps_openAt (v : Volume) (path : String) (loc : Location) :
    Keeps loc v (openAt v path).2 := by
  unfold openAt
  split
  · exact .inl rfl
  rename_i v₁ hparents
  have hparents := tableAt_makeParents hparents loc
  split
  · exact .inl hparents
  split
  · exact .inl hparents
  rename_i v₂ hconnect
  have hconnect := (tableAt_connect hconnect loc).trans hparents
  split
  · exact .inl hconnect
  rename_i hensure
  have hkept := keeps_ensureTable hensure loc
  unfold Keeps at hkept ⊢
  rwa [hconnect] at hkept

theorem tableAt_openAt {v : Volume} {path : String} {h : Handle} {loc : Location}
    (hok : (openAt v path).1 = .ok h) (hfile : h.target = .file loc) :
    ∃ t, (openAt v path).2.tableAt loc = some t := by
  obtain ⟨v₁, name, target, v₂, _, _, _, hensure⟩ := openAt_eq_ok (Prod.ext hok rfl)
  exact tableAt_ensureTable hensure hfile

end Outbox
end RetentionJobs
