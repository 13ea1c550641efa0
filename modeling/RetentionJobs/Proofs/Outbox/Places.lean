import Mathlib.Data.Prod.Basic
import RetentionJobs.Proofs.Files.Path
import RetentionJobs.Proofs.Outbox.Opening
import RetentionJobs.Proofs.Text.Percent
/-! Which file an outbox is kept in. Its name is the path with the escapes decoded, and directories
are made for the path as it stands, so the file is the one at the path only as long as decoding
leads to the same place. -/
namespace RetentionJobs

namespace Volume

theorem isDirectory_iff {v : Volume} {loc : Location} :
    v.isDirectory loc ↔ v.get? loc = some .directory := by
  unfold isDirectory
  split
  · rename_i h
    simp only [h]
  · rename_i h
    simp only [Bool.false_eq_true, false_iff]
    exact h

/-- A directory is not touched by what is put where there is none. -/
theorem isDirectory_put {v : Volume} {loc loc' : Location} {node : Node} (h : v.isDirectory loc')
    (hloc : v.get? loc ≠ some .directory) : (v.put loc node).isDirectory loc' := by
  rw [isDirectory_iff] at h ⊢
  have hne : loc' ≠ loc := fun heq => hloc (heq ▸ h)
  rw [get?_put_of_ne hne, h]

theorem workingDir_makeAlong {v v' : Volume} {base : Location} {parts : List String}
    (h : v.makeAlong base parts = .ok v') : v'.workingDir = v.workingDir := by
  fun_induction makeAlong v base parts with
  | case1 => rw [Except.ok.inj h]
  | case2 v base parts ih => exact ih h
  | case3 v base parts ih => exact ih h
  | case4 v base part parts _ _ loc _ ih => exact ih h
  | case5 v base part parts _ _ loc _ ih => exact ih h
  | case6 => cases h

theorem locate_of_workingDir {v v' : Volume} (h : v'.workingDir = v.workingDir) (path : String) :
    v'.locate path = v.locate path := by
  unfold locate start
  rw [h]

end Volume

namespace Outbox
open RetentionJobs.Text Volume

theorem workingDir_makeParents {v v' : Volume} {path : String} (h : makeParents v path = .ok v') :
    v'.workingDir = v.workingDir := by
  unfold makeParents at h
  split at h
  · rw [Except.ok.inj h]
  · rw [Except.ok.inj h]
  · split at h
    · rename_i hmade
      rw [← Except.ok.inj h]
      exact workingDir_makeAlong hmade
    · cases h

/-- A name for which a database without a file is opened. -/
def IsDetached (name : List Char) : Prop :=
  String.ofList name = "" ∨ String.ofList name = ":memory:"

instance (name : List Char) : Decidable (IsDetached name) := inferInstanceAs (Decidable (_ ∨ _))

/-- A database has been connected to in a directory. -/
theorem isDirectory_connect {v v' : Volume} {name : List Char} {loc : Location}
    (h : connect v name = .ok (.file loc, v')) :
    ¬ IsDetached name ∧ loc = v.locate (String.ofList name) ∧ v'.isDirectory loc.dropLast := by
  obtain ⟨_, hdetached, _⟩ | ⟨hname, hfile, hdirectory, rfl | ⟨hnone, rfl⟩⟩ := connect_cases h
  · cases hdetached
  · obtain rfl := Target.file.inj hfile
    exact ⟨hname, rfl, hdirectory⟩
  · obtain rfl := Target.file.inj hfile
    exact ⟨hname, rfl, isDirectory_put hdirectory (by simp [hnone])⟩

theorem get?_ne_directory {h : Handle} {loc : Location} {v : Volume} {t : Option Table}
    (hfile : h.target = .file loc) (htable : h.table v = .ok t) :
    v.get? loc ≠ some .directory := by
  intro hdirectory
  simp only [Handle.table, hfile, hdirectory] at htable
  cases htable

theorem isDirectory_ensureTable {h h' : Handle} {v v' : Volume} {loc loc' : Location}
    (hok : h.ensureTable v = .ok (h', v')) (hfile : h.target = .file loc)
    (hdirectory : v.isDirectory loc') : h' = h ∧ v'.isDirectory loc' := by
  obtain ⟨_, _, rfl, rfl⟩ | ⟨hnone, hset⟩ := Handle.ensureTable_cases hok
  · exact ⟨rfl, hdirectory⟩
  · rw [Handle.setTable_of_file hfile] at hset
    obtain ⟨rfl, rfl⟩ := Prod.mk.inj hset
    exact ⟨rfl, isDirectory_put hdirectory (get?_ne_directory hfile hnone)⟩

theorem detached_ensureTable {h h' : Handle} {v v' : Volume} {t : Option Table}
    (hok : h.ensureTable v = .ok (h', v')) (hdetached : h.target = .detached t) :
    h'.path = h.path ∧ ∃ t', h'.target = .detached t' := by
  obtain ⟨_, _, rfl, _⟩ | ⟨_, hset⟩ := Handle.ensureTable_cases hok
  · exact ⟨rfl, t, hdetached⟩
  · rw [Handle.setTable_of_detached hdetached] at hset
    obtain ⟨rfl, _⟩ := Prod.mk.inj hset
    exact ⟨rfl, some [], rfl⟩

/-- An outbox reports the path it was opened at, and its target goes by the decoded name. -/
theorem target_openAt {v v' : Volume} {path : String} {h : Handle}
    (hopen : openAt v path = (.ok h, v')) :
    ∃ name, fileName path = .ok name ∧ h.path = path ∧
      ((IsDetached name ∧ ∃ t, h.target = .detached t) ∨
        (¬ IsDetached name ∧ h.target = .file (v.locate (String.ofList name)) ∧
          v'.isDirectory (v.locate (String.ofList name)).dropLast)) := by
  obtain ⟨v₁, name, target, v₂, hparents, hname, hconnect, hensure⟩ := openAt_eq_ok hopen
  refine ⟨name, hname, ?_⟩
  cases target with
  | detached t =>
    obtain ⟨hname, _, _⟩ | ⟨_, hfile, _⟩ := connect_cases hconnect
    · obtain ⟨hpath, hdetached⟩ := detached_ensureTable hensure rfl
      exact ⟨hpath, .inl ⟨hname, hdetached⟩⟩
    · cases hfile
  | file loc =>
    obtain ⟨hname, rfl, hdirectory⟩ := isDirectory_connect hconnect
    obtain ⟨rfl, hdirectory'⟩ := isDirectory_ensureTable hensure rfl hdirectory
    rw [locate_of_workingDir (workingDir_makeParents hparents)] at hdirectory' ⊢
    exact ⟨rfl, .inr ⟨hname, rfl, hdirectory'⟩⟩

/-! ### Names without escapes -/

theorem eq_of_splitFirst {c : Char} {cs front : List Char}
    (h : splitFirst c cs = (front, none)) : front = cs := by
  unfold splitFirst at h
  split at h
  · exact (Prod.mk.inj h).1.symm
  · cases (Prod.mk.inj h).2

theorem fileName_eq_ok {path : String} {name : List Char} (h : fileName path = .ok name) :
    utf8? (percentDecode (utf8Bytes path.toList)) = some name := by
  unfold fileName at h
  split at h
  · rename_i front hfront
    obtain rfl := eq_of_splitFirst hfront
    split at h
    · cases h
    · rename_i decoded hdecoded
      split at h
      · cases h
      · rw [hdecoded, Except.ok.inj h]
  · cases h

/-- The name that an absolute path gives is absolute. -/
theorem isAbsolute_of_fileName {path : String} {name : List Char} (h : fileName path = .ok name)
    (habsolute : Path.isAbsolute path) : Path.isAbsolute (String.ofList name) := by
  obtain ⟨cs, hcs⟩ := List.head?_eq_some_iff.mp (beq_iff_eq.mp habsolute)
  have hname := eq_map_some_of_mapM (fileName_eq_ok h)
  have hslash : utf8Bytes ('/' :: cs) = 47 :: utf8Bytes cs := rfl
  rw [hcs, hslash, percentDecode_cons_of_ne (by decide)] at hname
  have hread : utf8Decode none (47 :: percentDecode (utf8Bytes cs)) =
      some '/' :: utf8Decode none (percentDecode (utf8Bytes cs)) := utf8Decode_encode '/' _
  rw [hread] at hname
  cases name with
  | nil => cases hname
  | cons c name =>
    obtain rfl := Option.some.inj (List.cons.inj hname).1
    simp [Path.isAbsolute]

theorem fileName_of_not_hasEscape {path : String} {name : List Char}
    (h : fileName path = .ok name) (hescape : ¬ HasEscape path.toList) : name = path.toList := by
  have hname := fileName_eq_ok h
  rw [percentDecode_utf8Bytes hescape, utf8?_utf8Bytes] at hname
  exact (Option.some.inj hname).symm

/-- The file name that a path gives leads where the path itself does. -/
def LeadsToItself (v : Volume) (path : String) : Prop :=
  ∃ name, fileName path = .ok name ∧ ¬ IsDetached name ∧
    v.locate (String.ofList name) = v.locate path

theorem leadsToItself_of_not_hasEscape {v v' : Volume} {path : String} {h : Handle}
    (hopen : openAt v path = (.ok h, v')) (hescape : ¬ HasEscape path.toList)
    (hdetached : ¬ IsDetached path.toList) : LeadsToItself v path := by
  obtain ⟨name, hname, _⟩ := target_openAt hopen
  obtain rfl := fileName_of_not_hasEscape hname hescape
  exact ⟨_, hname, hdetached, by rw [String.ofList_toList]⟩

/-- Decoding a plain path with an escape leads elsewhere, as too few characters are left. -/
theorem not_hasEscape_of_leadsToItself {v : Volume} {path : String} (hplain : Path.IsPlain path)
    (h : LeadsToItself v path) : ¬ HasEscape path.toList := by
  intro hescape
  obtain ⟨name, hname, _, hlocate⟩ := h
  have hshorter := length_lt_of_hasEscape hescape (fileName_eq_ok hname)
  have hpath := weight_locate_of_isPlain hplain v
  have hdecoded := v.weight_locate_le (String.ofList name)
  rw [hlocate, String.length_ofList] at hdecoded
  rw [String.length_toList] at hshorter
  by_cases habsolute : Path.isAbsolute path
  · have habsolute' := isAbsolute_of_fileName hname habsolute
    simp only [start, habsolute, habsolute', if_true] at hpath hdecoded
    omega
  · by_cases habsolute' : Path.isAbsolute (String.ofList name)
    · simp only [start, habsolute, habsolute', if_true, if_false, Bool.false_eq_true] at hpath hdecoded
      have hroot : Path.weight [] = 0 := rfl
      omega
    · simp only [start, habsolute, habsolute', if_false, Bool.false_eq_true] at hpath hdecoded
      omega

/-- The rows of a handle are kept in the file at a location, in a directory. -/
def KeptAt (loc : Location) (h : Handle) (v : Volume) : Prop :=
  h.target = .file loc ∧ v.isDirectory loc.dropLast ∧ ∃ t, v.tableAt loc = some t

theorem keptAt_openAt_iff {v v' : Volume} {path : String} {h : Handle}
    (hopen : openAt v path = (.ok h, v')) :
    KeptAt (v.locate path) h v' ↔ LeadsToItself v path := by
  obtain ⟨name, hname, _, ⟨hdetached, t, htarget⟩ | ⟨hfile, htarget, hdirectory⟩⟩ :=
    target_openAt hopen
  · constructor
    · rintro ⟨htarget', _⟩
      rw [htarget] at htarget'
      cases htarget'
    · rintro ⟨name', hname', hfile, _⟩
      obtain rfl := Except.ok.inj (hname.symm.trans hname')
      exact absurd hdetached hfile
  · constructor
    · rintro ⟨htarget', _⟩
      rw [htarget] at htarget'
      exact ⟨name, hname, hfile, Target.file.inj htarget'⟩
    · rintro ⟨name', hname', _, hlocate⟩
      obtain rfl := Except.ok.inj (hname.symm.trans hname')
      rw [hlocate] at htarget hdirectory
      refine ⟨htarget, hdirectory, ?_⟩
      have htable := tableAt_openAt (congrArg Prod.fst hopen) htarget
      rwa [hopen] at htable

/-! ### Outboxes in different files -/

/-- Submits statements one after another, whatever the answers are. -/
def Session.submitAll : List String → Session → Session
  | [], s => s
  | statement :: statements, s => submitAll statements (repository.submit statement s).2

theorem table_put_of_ne {h : Handle} {loc loc' : Location} (hfile : h.target = .file loc')
    (hne : loc' ≠ loc) (v : Volume) (node : Node) : h.table (v.put loc node) = h.table v := by
  simp only [Handle.table, hfile, get?_put_of_ne hne]

theorem table_submit_of_ne {s : Session} {h : Handle} {loc loc' : Location}
    (hfile : s.handle.target = .file loc) (hfile' : h.target = .file loc') (hne : loc' ≠ loc)
    (statement : String) :
    (repository.submit statement s).2.handle = s.handle ∧
      h.table (repository.submit statement s).2.volume = h.table s.volume := by
  simp only [repository, Session.submit]
  split
  · exact ⟨rfl, rfl⟩
  · rename_i handle volume hinsert
    obtain ⟨t, _, hset⟩ := Handle.eq_setTable_of_insert hinsert
    rw [Handle.setTable_of_file hfile] at hset
    obtain ⟨rfl, rfl⟩ := Prod.mk.inj hset
    exact ⟨rfl, table_put_of_ne hfile' hne _ _⟩

theorem list_submitAll_of_ne {s : Session} {h : Handle} {loc loc' : Location}
    (hfile : s.handle.target = .file loc) (hfile' : h.target = .file loc') (hne : loc' ≠ loc)
    (statements : List String) : h.list (s.submitAll statements).volume = h.list s.volume := by
  induction statements generalizing s with
  | nil => rfl
  | cons statement statements ih =>
    obtain ⟨hhandle, htable⟩ := table_submit_of_ne hfile hfile' hne statement
    rw [Session.submitAll, ih (hhandle ▸ hfile), Handle.list, htable, Handle.list]

/-- An outbox that could be opened is kept in the file at its path exactly if the decoded path leads
there. It does so without escapes, and on a plain path only without. Outboxes that are kept in
files at different paths never see each other's statements. -/
theorem openAt_at_path {v v' : Volume} {path : String} {h : Handle}
    (hopen : openAt v path = (.ok h, v')) :
    h.path = path ∧ (KeptAt (v.locate path) h v' ↔ LeadsToItself v path) ∧
      (¬ HasEscape path.toList → ¬ IsDetached path.toList → KeptAt (v.locate path) h v') ∧
      (Path.IsPlain path → ¬ IsDetached path.toList →
        (KeptAt (v.locate path) h v' ↔ ¬ HasEscape path.toList)) ∧
      ∀ {w w' : Volume} {path' : String} {h' : Handle}, openAt w path' = (.ok h', w') →
        LeadsToItself v path → LeadsToItself w path' → w.locate path' ≠ v.locate path →
        ∀ (s : Session) (statements : List String), s.handle = h →
          h'.list (s.submitAll statements).volume = h'.list s.volume := by
  have hkept := keptAt_openAt_iff hopen
  obtain ⟨name, _, hpath, _⟩ := target_openAt hopen
  refine ⟨hpath, hkept, fun hescape hdetached => ?_, fun hplain hdetached => ?_, ?_⟩
  · exact hkept.mpr (leadsToItself_of_not_hasEscape hopen hescape hdetached)
  · refine ⟨fun h => not_hasEscape_of_leadsToItself hplain (hkept.mp h), fun hescape => ?_⟩
    exact hkept.mpr (leadsToItself_of_not_hasEscape hopen hescape hdetached)
  · intro w w' path' h' hopen' hitself hitself' hne s statements hs
    have hfile := (hkept.mpr hitself).1
    have hfile' := ((keptAt_openAt_iff hopen').mpr hitself').1
    exact list_submitAll_of_ne (hs ▸ hfile) hfile' hne statements

/-- A percent sign alone does no harm. -/
theorem openAt_at_path_percent :
    ∃ v v' : Volume, openAt {} "/out/100%.db" = (.ok ⟨"/out/100%.db", .file ["out", "100%.db"]⟩, v) ∧
      openAt v "/out/jobs.db" = (.ok ⟨"/out/jobs.db", .file ["out", "jobs.db"]⟩, v') ∧
      KeptAt ["out", "100%.db"] ⟨"/out/100%.db", .file ["out", "100%.db"]⟩ v ∧
      ¬ HasEscape "/out/100%.db".toList ∧
      ∀ tickets, Handle.list ⟨"/out/jobs.db", .file ["out", "jobs.db"]⟩
        (Session.submitAll ["SELECT 1;"]
          ⟨⟨"/out/100%.db", .file ["out", "100%.db"]⟩, v', tickets, 0⟩).volume = .ok [] := by
  obtain ⟨v, v', hopen, hopen', hlocate', hempty⟩ : ∃ v v' : Volume,
      openAt {} "/out/100%.db" = (.ok ⟨"/out/100%.db", .file ["out", "100%.db"]⟩, v) ∧
      openAt v "/out/jobs.db" = (.ok ⟨"/out/jobs.db", .file ["out", "jobs.db"]⟩, v') ∧
      v.locate "/out/jobs.db" = ["out", "jobs.db"] ∧
      Handle.list ⟨"/out/jobs.db", .file ["out", "jobs.db"]⟩ v' = .ok [] :=
    ⟨(openAt {} "/out/100%.db").2, (openAt (openAt {} "/out/100%.db").2 "/out/jobs.db").2,
      Prod.fst_eq_iff.mp (by decide +kernel), Prod.fst_eq_iff.mp (by decide +kernel),
      by decide +kernel, by decide +kernel⟩
  have hname : fileName "/out/100%.db" = .ok "/out/100%.db".toList := by decide +kernel
  have hname' : fileName "/out/jobs.db" = .ok "/out/jobs.db".toList := by decide +kernel
  have hlocate : Volume.locate {} "/out/100%.db" = ["out", "100%.db"] := by decide +kernel
  have hitself : LeadsToItself {} "/out/100%.db" := ⟨_, hname, by decide, by decide +kernel⟩
  have hitself' : LeadsToItself v "/out/jobs.db" :=
    ⟨_, hname', by decide, by rw [String.ofList_toList]⟩
  obtain ⟨_, hkept, _, hescape, hother⟩ := openAt_at_path hopen
  have hkept := hkept.mpr hitself
  have hescape := (hescape (by decide +kernel) (by decide)).mp hkept
  have hother := hother hopen' hitself hitself' (by rw [hlocate, hlocate']; decide)
  rw [hlocate] at hkept
  refine ⟨v, v', hopen, hopen', hkept, hescape, fun tickets => ?_⟩
  rw [hother ⟨_, v', tickets, 0⟩ ["SELECT 1;"] rfl, hempty]

/-- With an escape in its name, an outbox is opened although the file at its path is no database.
Its statements go to another file, where they are seen. -/
theorem openAt_escape :
    let planted : Volume :=
      ⟨[], [(["out", "a%62.db"], .text "this is not a database at all"), (["out"], .directory)]⟩
    ∃ (h h' : Handle) (v v' : Volume), openAt planted "/out/a%62.db" = (.ok h, v) ∧
      h.path = "/out/a%62.db" ∧ ¬ KeptAt (planted.locate "/out/a%62.db") h v ∧
      openAt v "/out/ab.db" = (.ok h', v') ∧
      h'.list (Session.submitAll ["SELECT 1;"] ⟨h, v', fun _ => ⟨"", 0, 0⟩, 0⟩).volume =
        .ok [⟨"", "SELECT 1;", 0, 0⟩] := by
  intro planted
  refine ⟨⟨"/out/a%62.db", .file ["out", "ab.db"]⟩, ⟨"/out/ab.db", .file ["out", "ab.db"]⟩,
    (openAt planted "/out/a%62.db").2,
    (openAt (openAt planted "/out/a%62.db").2 "/out/ab.db").2,
    Prod.fst_eq_iff.mp (by decide +kernel), rfl, fun hkept => ?_,
    Prod.fst_eq_iff.mp (by decide +kernel), by decide +kernel⟩
  exact absurd hkept.1 (by decide +kernel)

end Outbox
end RetentionJobs
