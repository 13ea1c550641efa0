import RetentionJobs.Proofs.Outbox.Places
/-! Opening an outbox that is already there. Nothing is missing then, so that nothing is made, and
this stays so while statements are submitted. -/
namespace RetentionJobs

namespace Volume

/-- Every directory of the first volume is one of the second. -/
def KeepsDirectories (v w : Volume) : Prop := ∀ loc, v.isDirectory loc → w.isDirectory loc

variable {u v w : Volume}

theorem KeepsDirectories.refl (v : Volume) : KeepsDirectories v v := fun _ h => h

theorem KeepsDirectories.trans (h : KeepsDirectories u v) (h' : KeepsDirectories v w) :
    KeepsDirectories u w := fun loc hloc => h' loc (h loc hloc)

theorem keepsDirectories_put {loc : Location} {node : Node} (h : v.get? loc ≠ some .directory) :
    KeepsDirectories v (v.put loc node) := fun _ hloc => isDirectory_put hloc h

theorem keepsDirectories_makeAlong {base : Location} {parts : List String}
    (h : v.makeAlong base parts = .ok w) : KeepsDirectories v w := by
  fun_induction makeAlong v base parts with
  | case1 => rw [Except.ok.inj h]; exact .refl w
  | case2 v base parts ih => exact ih h
  | case3 v base parts ih => exact ih h
  | case4 v base part parts _ _ loc _ ih => exact ih h
  | case5 v base part parts _ _ loc hnone ih =>
    exact (keepsDirectories_put (by simp [hnone])).trans (ih h)
  | case6 => cases h

/-- Nothing is made along a path on which all directories have been made. -/
theorem makeAlong_again {base : Location} {parts : List String}
    (h : u.makeAlong base parts = .ok v) (hw : KeepsDirectories v w) :
    w.makeAlong base parts = .ok w := by
  fun_induction makeAlong u base parts with
  | case1 => rfl
  | case2 u base parts ih => exact ih h
  | case3 u base parts ih => exact ih h
  | case4 u base part parts hdot hdots loc hdirectory ih =>
    have hthere := (keepsDirectories_makeAlong h).trans hw loc (isDirectory_iff.mpr hdirectory)
    rw [makeAlong, isDirectory_iff.mp hthere]
    · exact ih h
    · exact hdot
    · exact hdots
  | case5 u base part parts hdot hdots loc _ ih =>
    have hmade : (u.put loc .directory).isDirectory loc := isDirectory_iff.mpr (get?_put ..)
    have hthere := (keepsDirectories_makeAlong h).trans hw loc hmade
    rw [makeAlong, isDirectory_iff.mp hthere]
    · exact ih h
    · exact hdot
    · exact hdots
  | case6 => cases h

end Volume

namespace Outbox
open Volume

variable {u v w : Volume} {path : String}

theorem makeParents_again (hpath : Path.isAbsolute path) (h : makeParents u path = .ok v)
    (hw : KeepsDirectories v w) : makeParents w path = .ok w := by
  unfold makeParents at h ⊢
  split at h
  · rfl
  · rfl
  · rename_i dir _ hparent
    have hdir := Path.isAbsolute_parent hpath hparent
    split at h
    · rename_i hmade
      rw [Except.ok.inj h] at hmade
      rw [makeDirectories, start_of_isAbsolute hdir] at hmade ⊢
      simp only [makeAlong_again hmade hw]
    · cases h

theorem keepsDirectories_connect {name : List Char} {target : Target}
    (h : connect v name = .ok (target, w)) : KeepsDirectories v w := by
  obtain ⟨_, _, rfl⟩ | ⟨_, _, _, rfl | ⟨hnone, rfl⟩⟩ := connect_cases h
  · exact .refl _
  · exact .refl _
  · exact keepsDirectories_put (by simp [hnone])

theorem keepsDirectories_setTable {h : Handle} {t : Option Table} (htable : h.table v = .ok t)
    (t' : Option Table) : KeepsDirectories v (h.setTable t' v).2 := by
  cases htarget : h.target with
  | file loc =>
    rw [Handle.setTable_of_file htarget]
    exact keepsDirectories_put (get?_ne_directory htarget htable)
  | detached t₀ =>
    rw [Handle.setTable_of_detached htarget]
    exact .refl v

theorem keepsDirectories_ensureTable {h h' : Handle} (hok : h.ensureTable v = .ok (h', w)) :
    KeepsDirectories v w := by
  obtain ⟨_, _, _, rfl⟩ | ⟨hnone, hset⟩ := Handle.ensureTable_cases hok
  · exact .refl _
  · have hkept := keepsDirectories_setTable hnone (some [])
    rwa [hset] at hkept

theorem connect_of_table {h : Handle} {name : List Char} {t : Table} (hname : ¬ IsDetached name)
    (hfile : h.target = .file (w.locate (String.ofList name)))
    (hdirectory : w.isDirectory (w.locate (String.ofList name)).dropLast)
    (htable : h.table w = .ok (some t)) : connect w name = .ok (h.target, w) := by
  have hnode := Handle.table_of_file hfile htable
  have hname' : ¬ (String.ofList name = "" ∨ String.ofList name = ":memory:") := hname
  unfold tableAt at hnode
  split at hnode
  · rename_i hget
    simp only [connect, hname', hdirectory, hget, hfile, if_true, if_false]
  · cases hnode

theorem not_isDetached_of_isAbsolute {name : List Char}
    (h : Path.isAbsolute (String.ofList name)) : ¬ IsDetached name := by
  rintro (hname | hname) <;> rw [hname] at h <;> exact absurd h (by decide)

/-- The file of an outbox at an absolute path. -/
theorem file_openAt {h : Handle} (hpath : Path.isAbsolute path) (hopen : openAt v path = (.ok h, w)) :
    ∃ name, fileName path = .ok name ∧ Path.isAbsolute (String.ofList name) ∧ h.path = path ∧
      h.target = .file (v.locate (String.ofList name)) ∧
      w.isDirectory (v.locate (String.ofList name)).dropLast := by
  obtain ⟨name, hname, hhandle, ⟨hdetached, _⟩ | ⟨_, hfile, hdirectory⟩⟩ := target_openAt hopen
  · exact absurd hdetached (not_isDetached_of_isAbsolute (isAbsolute_of_fileName hname hpath))
  · exact ⟨name, hname, isAbsolute_of_fileName hname hpath, hhandle, hfile, hdirectory⟩

theorem keepsDirectories_openAt {v₁ : Volume} {h : Handle} (hopen : openAt v path = (.ok h, w))
    (hparents : makeParents v path = .ok v₁) : KeepsDirectories v₁ w := by
  obtain ⟨v₁', name, target, v₂, hparents', _, hconnect, hensure⟩ := openAt_eq_ok hopen
  obtain rfl := Except.ok.inj (hparents.symm.trans hparents')
  exact (keepsDirectories_connect hconnect).trans (keepsDirectories_ensureTable hensure)

/-- An outbox at an absolute path that still has its table and its directories is opened as it was,
from whatever directory, and nothing is made. -/
theorem openAt_again {h : Handle} {t : Table} (hpath : Path.isAbsolute path)
    (hopen : openAt u path = (.ok h, v)) (hw : KeepsDirectories v w)
    (htable : h.table w = .ok (some t)) : openAt w path = (.ok h, w) := by
  obtain ⟨v₁, name, _, _, hparents, hname, _⟩ := openAt_eq_ok hopen
  have hkept := (keepsDirectories_openAt hopen hparents).trans hw
  obtain ⟨name', hname', habsolute, hhandle, hfile, hdirectory⟩ := file_openAt hpath hopen
  obtain rfl := Except.ok.inj (hname.symm.trans hname')
  rw [locate_of_isAbsolute habsolute u w] at hfile hdirectory
  have hconnect := connect_of_table (not_isDetached_of_isAbsolute habsolute) hfile
    (hw _ hdirectory) htable
  have hensure : h.ensureTable w = .ok (h, w) := by
    unfold Handle.ensureTable
    rw [htable]
  have hsame : (⟨path, h.target⟩ : Handle) = h := by rw [← hhandle]
  unfold openAt
  rw [makeParents_again hpath hparents hkept]
  simp only [hname, hconnect, hsame, hensure]

/-! ### While statements are submitted -/

/-- Submitting keeps the handle, the table and all directories. -/
theorem submit_of_tableAt {s : Session} {loc : Location} {t : Table}
    (hfile : s.handle.target = .file loc) (htable : s.volume.tableAt loc = some t)
    (statement : String) :
    (repository.submit statement s).2.handle = s.handle ∧
      KeepsDirectories s.volume (repository.submit statement s).2.volume ∧
      ∃ t', (repository.submit statement s).2.volume.tableAt loc = some t' := by
  simp only [repository, Session.submit]
  split
  · exact ⟨rfl, .refl _, t, htable⟩
  · rename_i handle volume hinsert
    obtain ⟨t₀, hbefore, hset⟩ := Handle.eq_setTable_of_insert hinsert
    rw [Handle.setTable_of_file hfile] at hset
    obtain ⟨rfl, rfl⟩ := Prod.mk.inj hset
    exact ⟨rfl, keepsDirectories_put (get?_ne_directory hfile hbefore), _, tableAt_put ..⟩

theorem submitAll_of_tableAt {s : Session} {loc : Location} {t : Table}
    (hfile : s.handle.target = .file loc) (htable : s.volume.tableAt loc = some t)
    (statements : List String) :
    (s.submitAll statements).handle = s.handle ∧
      KeepsDirectories s.volume (s.submitAll statements).volume ∧
      ∃ t', (s.submitAll statements).volume.tableAt loc = some t' := by
  induction statements generalizing s t with
  | nil => exact ⟨rfl, .refl _, t, htable⟩
  | cons statement statements ih =>
    obtain ⟨hhandle, hkept, t', htable'⟩ := submit_of_tableAt hfile htable statement
    obtain ⟨hhandle', hkept', htable''⟩ := ih (hhandle ▸ hfile) htable'
    exact ⟨hhandle'.trans hhandle, hkept.trans hkept', htable''⟩

end Outbox
end RetentionJobs
