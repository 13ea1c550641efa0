import Mathlib.Data.List.Infix
import Mathlib.Logic.Function.Basic
import RetentionJobs.CommandLine.Run
import RetentionJobs.Proofs.Outbox.Reopening
/-! Outboxes of programs that are started in different directories. An absolute path leads to one
place from all of them, so that the programs share its outbox, and a relative path does not, as it
is not seen from the data directory. -/
namespace RetentionJobs

/-! ### The same files seen from different directories -/

namespace Volume
open Outcome

/-- The files and directories are the same, whatever the working directories are. -/
def SameFiles (v w : Volume) : Prop := v.get? = w.get?

variable {v w : Volume}

theorem get?_put_eq_update (v : Volume) (loc : Location) (node : Node) :
    (v.put loc node).get? = Function.update v.get? loc (some node) := by
  funext loc'
  by_cases h : loc' = loc
  · rw [h, get?_put, Function.update_self]
  · rw [get?_put_of_ne h, Function.update_of_ne h]

theorem SameFiles.put (h : SameFiles v w) (loc : Location) (node : Node) :
    SameFiles (v.put loc node) (w.put loc node) := by
  unfold SameFiles at h ⊢
  rw [get?_put_eq_update, get?_put_eq_update, h]

theorem SameFiles.isDirectory (h : SameFiles v w) (loc : Location) :
    v.isDirectory loc = w.isDirectory loc := by
  unfold Volume.isDirectory
  rw [h]

theorem SameFiles.keepsDirectories (h : SameFiles v w) : KeepsDirectories v w :=
  fun loc hloc => h.isDirectory loc ▸ hloc

/-- The same files seen from another directory. -/
def enter (v : Volume) (dir : Location) : Volume :=
  ⟨dir, v.nodes ++ v.workingDir.inits.map (·, .directory)⟩

theorem lookup_map_directory (locs : List Location) (loc : Location) :
    (locs.map (·, Node.directory)).lookup loc = if loc ∈ locs then some .directory else none := by
  induction locs with
  | nil => rfl
  | cons loc' locs ih =>
    rw [List.map_cons, List.lookup_cons, ih]
    by_cases h : loc = loc'
    · simp [h]
    · simp [h, beq_eq_false_iff_ne.mpr h]

theorem sameFiles_enter {dir : Location} (h : ∀ loc ∈ dir.inits, v.isDirectory loc) :
    SameFiles v (v.enter dir) := by
  funext loc
  have hdir (hloc : loc <+: dir) : v.get? loc = some .directory :=
    isDirectory_iff.mp (h loc ((List.mem_inits ..).mpr hloc))
  unfold get? enter at *
  rw [List.lookup_append, lookup_map_directory]
  cases hnode : v.nodes.lookup loc with
  | some node => rfl
  | none =>
    rw [hnode] at hdir
    simp only [List.isPrefixOf_iff_prefix, List.mem_inits, Option.none_or] at hdir ⊢
    by_cases hworking : loc <+: v.workingDir
    · simp only [hworking, if_true]
    · simp only [hworking, if_false] at hdir ⊢
      by_cases hloc : loc <+: dir
      · cases hdir hloc
      · rw [if_neg hloc]

/-- Following parts makes the same directories, or fails in the same way. -/
theorem SameFiles.makeAlong (h : SameFiles v w) (base : Location) (parts : List String) :
    Related SameFiles (v.makeAlong base parts) (w.makeAlong base parts) := by
  fun_induction Volume.makeAlong v base parts generalizing w with
  | case1 v base => exact .ok h
  | case2 v base parts ih => exact ih h
  | case3 v base parts ih => exact ih h
  | case4 v base part parts hdot hdots loc hnode =>
    rename_i ih
    rw [Volume.makeAlong, ← h, hnode]
    · exact ih h
    · exact hdot
    · exact hdots
  | case5 v base part parts hdot hdots loc hnode =>
    rename_i ih
    rw [Volume.makeAlong, ← h, hnode]
    · exact ih (h.put loc .directory)
    · exact hdot
    · exact hdots
  | case6 v base part parts hdot hdots loc node hother =>
    rename_i hnode
    rw [Volume.makeAlong, ← h, hnode]
    · cases node with
      | directory => exact absurd rfl hother
      | text _ => exact .error _
      | database _ => exact .error _
    · exact hdot
    · exact hdots

end Volume

namespace Outbox
open Volume Outcome

variable {v w : Volume} {path : String}

theorem related_makeParents (hpath : Path.isAbsolute path) (h : SameFiles v w) :
    Related SameFiles (makeParents v path) (makeParents w path) := by
  unfold makeParents
  split
  · exact .ok h
  · exact .ok h
  · rename_i dir _ hparent
    have hdir := Path.isAbsolute_parent hpath hparent
    have hmade := h.makeAlong [] (Path.components dir)
    simp only [makeDirectories, start_of_isAbsolute hdir]
    generalize v.makeAlong [] _ = x, w.makeAlong [] _ = y at hmade ⊢
    cases hmade with
    | error e => exact .error _
    | ok hfiles => exact .ok hfiles

/-- The same besides the volumes, which have the same files. -/
def SameResult {α : Type} (x y : α × Volume) : Prop := x.1 = y.1 ∧ SameFiles x.2 y.2

theorem related_connect {name : List Char} (hname : Path.isAbsolute (String.ofList name))
    (h : SameFiles v w) : Related SameResult (connect v name) (connect w name) := by
  unfold connect
  simp only
  rw [locate_of_isAbsolute hname w v, ← h.isDirectory, ← h]
  split
  · exact .ok ⟨rfl, h⟩
  · split
    · split
      · exact .error _
      · exact .ok ⟨rfl, h⟩
      · exact .ok ⟨rfl, h.put _ _⟩
    · exact .error _

theorem SameFiles.table (h : SameFiles v w) (handle : Handle) : handle.table v = handle.table w := by
  unfold Handle.table
  rw [h]

theorem sameResult_setTable (h : SameFiles v w) (handle : Handle) (t : Option Table) :
    SameResult (handle.setTable t v) (handle.setTable t w) := by
  unfold Handle.setTable
  split
  · exact ⟨rfl, h⟩
  · exact ⟨rfl, h.put _ _⟩

theorem related_ensureTable (h : SameFiles v w) (handle : Handle) :
    Related SameResult (handle.ensureTable v) (handle.ensureTable w) := by
  unfold Handle.ensureTable
  rw [← SameFiles.table h handle]
  split
  · exact .error _
  · exact .ok ⟨rfl, h⟩
  · exact .ok (sameResult_setTable h handle _)

/-- An absolute path is opened alike from all directories. -/
theorem sameResult_openAt (hpath : Path.isAbsolute path) (h : SameFiles v w) :
    SameResult (openAt v path) (openAt w path) := by
  have hparents := related_makeParents hpath h
  unfold openAt
  generalize makeParents v path = x, makeParents w path = y at hparents ⊢
  cases hparents with
  | error e => exact ⟨rfl, h⟩
  | ok h =>
    rename_i v w
    simp only
    cases hname : fileName path with
    | error e => exact ⟨rfl, h⟩
    | ok name =>
      have hconnect := related_connect (isAbsolute_of_fileName hname hpath) h
      simp only
      generalize connect v name = x, connect w name = y at hconnect ⊢
      cases hconnect with
      | error e => exact ⟨rfl, h⟩
      | @ok a b h' =>
        obtain ⟨target, v⟩ := a
        obtain ⟨target', w⟩ := b
        obtain ⟨rfl, h⟩ : target = target' ∧ SameFiles v w := h'
        have hensure := related_ensureTable h ⟨path, target⟩
        simp only
        generalize Handle.ensureTable _ v = x, Handle.ensureTable _ w = y at hensure ⊢
        cases hensure with
        | error e => exact ⟨rfl, h⟩
        | ok h => exact ⟨congrArg Except.ok h.1, h.2⟩

end Outbox

/-! ### The configured outbox -/

namespace OpenRepository

variable {c : Config} {v : Volume} {tickets : Nat → Outbox.Ticket}

theorem ofConfig_of_openAt {v' : Volume} {handle : Outbox.Handle}
    (hbackend : c.repository.backend = .sqlite)
    (hopen : Outbox.openAt v c.outboxPath = (.ok handle, v')) :
    ofConfig c v tickets =
      .ok ⟨Outbox.repository, { handle := handle, volume := v', tickets := tickets }⟩ := by
  simp only [ofConfig, hbackend, hopen]

theorem openAt_of_ofConfig {s : Outbox.Session} (hbackend : c.repository.backend = .sqlite)
    (h : ofConfig c v tickets = .ok ⟨Outbox.repository, s⟩) :
    Outbox.openAt v c.outboxPath = (.ok s.handle, s.volume) := by
  simp only [ofConfig, hbackend] at h
  split at h
  · cases h
  · rename_i handle volume hopen
    obtain rfl := eq_of_heq (OpenRepository.mk.inj (Except.ok.inj h)).2.2
    exact hopen

end OpenRepository

namespace Config
open RetentionJobs.Text CommandLine Outbox Volume

/-- The outbox as it is specified: its path is seen from the data directory. -/
def documentedOutbox (c : Config) : String :=
  Path.join c.dataDir (c.repository.path.getD "statements.db")

/-- No path is configured for the outbox, or an absolute one. -/
def HasFixedOutbox (c : Config) : Prop := ∀ path ∈ c.repository.path, Path.isAbsolute path

instance (c : Config) : Decidable c.HasFixedOutbox := inferInstanceAs (Decidable (∀ _ ∈ _, _))

variable {c : Config}

theorem isAbsolute_outboxPath_iff (hdir : Path.isAbsolute c.dataDir) :
    Path.isAbsolute c.outboxPath ↔ c.HasFixedOutbox := by
  unfold outboxPath RepositorySettings.outboxPath HasFixedOutbox
  split
  · rename_i path hpath
    simp only [hpath, Option.mem_def, Option.some.injEq, forall_eq']
  · rename_i hpath
    simp [hpath, Path.isAbsolute_join hdir]

theorem outboxPath_eq_documentedOutbox_iff (hdir : Path.isAbsolute c.dataDir) :
    c.outboxPath = c.documentedOutbox ↔ c.HasFixedOutbox := by
  rw [← isAbsolute_outboxPath_iff hdir]
  refine ⟨fun h => h ▸ Path.isAbsolute_join hdir _, fun h => ?_⟩
  unfold outboxPath RepositorySettings.outboxPath documentedOutbox at *
  split at h
  · rename_i path hpath
    rw [hpath, Option.getD_some, Path.join, if_pos (.inl h)]
  · rename_i hpath
    rw [hpath, Option.getD_none]

theorem listStatements_of_open {v v' : Volume} {handle : Handle}
    (hbackend : c.repository.backend = .sqlite)
    (hopen : openAt v c.outboxPath = (.ok handle, v')) :
    listStatements c v =
      ((handle.list v').mapError .repository).map fun rows => .printed (listing rows) "" := by
  simp only [listStatements, hbackend, hopen]
  cases handle.list v' <;> rfl

/-- The statements of a gateway are kept where they are specified to be, and are listed from every
directory, if no path is configured for the outbox or an absolute one. A relative path does not
lead to the specified place, and from different directories it leads to different places. -/
theorem outbox_from_every_directory (hbackend : c.repository.backend = .sqlite)
    (hdir : Path.isAbsolute c.dataDir) :
    (c.outboxPath = c.documentedOutbox ↔ c.HasFixedOutbox) ∧
      ((∀ v w : Volume, v.locate c.outboxPath = w.locate c.outboxPath) ↔ c.HasFixedOutbox) ∧
      (c.HasFixedOutbox → ∀ {v w : Volume}, SameFiles v w →
        SameResult (openAt v c.outboxPath) (openAt w c.outboxPath)) ∧
      ∀ {v : Volume} {tickets : Nat → Ticket} {s : Session},
        OpenRepository.ofConfig c v tickets = .ok ⟨Outbox.repository, s⟩ →
        s.handle.path = c.outboxPath ∧
          (¬ HasEscape c.outboxPath.toList → ¬ IsDetached c.outboxPath.toList →
            (KeptAt (v.locate c.documentedOutbox) s.handle s.volume ↔
              v.locate c.outboxPath = v.locate c.documentedOutbox)) ∧
          (c.HasFixedOutbox → ∀ (statements : List String) (w : Volume) (tickets' : Nat → Ticket),
            SameFiles (s.submitAll statements).volume w →
            OpenRepository.ofConfig c w tickets' =
                .ok ⟨Outbox.repository, { handle := s.handle, volume := w, tickets := tickets' }⟩ ∧
              run .statements c { volume := w } =
                ((s.submitAll statements).list.mapError .repository).map
                  fun rows => .printed (listing rows) "") := by
  have hfixed := isAbsolute_outboxPath_iff hdir
  refine ⟨outboxPath_eq_documentedOutbox_iff hdir, locate_eq_iff.trans hfixed,
    fun h _ _ hfiles => sameResult_openAt (hfixed.mpr h) hfiles, fun {v tickets s} hstart => ?_⟩
  have hopen := OpenRepository.openAt_of_ofConfig hbackend hstart
  obtain ⟨_, _, hpath, _⟩ := target_openAt hopen
  refine ⟨hpath, fun hescape hdetached => ?_, fun h statements w tickets' hfiles => ?_⟩
  · have hkept := (keptAt_openAt_iff hopen).mpr
      (leadsToItself_of_not_hasEscape hopen hescape hdetached)
    refine ⟨fun h => Target.file.inj (hkept.1.symm.trans h.1), fun h => ?_⟩
    rwa [← h]
  · have habsolute := hfixed.mpr h
    obtain ⟨_, _, _, _, hfile, _⟩ := file_openAt habsolute hopen
    obtain ⟨t, htable⟩ := tableAt_openAt (congrArg Prod.fst hopen) hfile
    rw [hopen] at htable
    obtain ⟨hhandle, hkept, t', htable'⟩ := submitAll_of_tableAt hfile htable statements
    have htable' := Handle.table_of_tableAt hfile htable'
    rw [SameFiles.table hfiles] at htable'
    have hagain := openAt_again habsolute hopen (hkept.trans hfiles.keepsDirectories) htable'
    refine ⟨OpenRepository.ofConfig_of_openAt hbackend hagain, ?_⟩
    change listStatements c w = _
    rw [listStatements_of_open hbackend hagain, Session.list, hhandle, Handle.list, Handle.list,
      SameFiles.table hfiles]

/-- A statement submitted in the root directory is listed in the data directory's parent. -/
theorem outbox_from_every_directory_home :
    let c : Config := { dataDir := "/home/.purgecron", repository := { backend := .sqlite } }
    ∃ s : Session,
      OpenRepository.ofConfig c {} (fun _ => ⟨"id-1", 0, 0⟩) = .ok ⟨Outbox.repository, s⟩ ∧
        c.outboxPath = "/home/.purgecron/statements.db" ∧
        KeptAt ["home", ".purgecron", "statements.db"] s.handle s.volume ∧
        run .statements c { volume := (s.submitAll ["SELECT 1;"]).volume.enter ["home"] } =
          .ok (.printed (listing [⟨"id-1", "SELECT 1;", 0, 0⟩]) "") := by
  intro c
  let handle : Handle :=
    ⟨"/home/.purgecron/statements.db", .file ["home", ".purgecron", "statements.db"]⟩
  let s : Session := ⟨handle, (openAt {} c.outboxPath).2, fun _ => ⟨"id-1", 0, 0⟩, 0⟩
  have hstart : OpenRepository.ofConfig c {} s.tickets = .ok ⟨Outbox.repository, s⟩ :=
    OpenRepository.ofConfig_of_openAt rfl (Prod.fst_eq_iff.mp (by decide +kernel))
  have hlocate : Volume.locate {} c.documentedOutbox =
      ["home", ".purgecron", "statements.db"] := by decide +kernel
  obtain ⟨hplace, _, _, hsession⟩ := outbox_from_every_directory (c := c) rfl (by decide)
  obtain ⟨_, hkept, hagain⟩ := hsession hstart
  have hfixed : c.HasFixedOutbox := by decide
  have hplace := hplace.mpr hfixed
  have hescape : ¬ HasEscape c.outboxPath.toList := fun ⟨_, _, _, _, hwithin⟩ =>
    absurd (hwithin.subset List.mem_cons_self) (by decide +kernel)
  have hkept := (hkept hescape (by decide +kernel)).mpr (by rw [hplace])
  have hfiles : SameFiles (s.submitAll ["SELECT 1;"]).volume
      ((s.submitAll ["SELECT 1;"]).volume.enter ["home"]) := sameFiles_enter (by decide +kernel)
  obtain ⟨_, hlisted⟩ := hagain hfixed ["SELECT 1;"] _ s.tickets hfiles
  have hrows : (s.submitAll ["SELECT 1;"]).list = .ok [⟨"id-1", "SELECT 1;", 0, 0⟩] := by
    decide +kernel
  rw [hlocate] at hkept
  refine ⟨s, hstart, by decide +kernel, hkept, ?_⟩
  rw [hlisted, hrows]
  rfl

/-- With the path `jobs.db`, a gateway in one directory and the listing in another one do not meet,
and neither uses the data directory. -/
theorem outbox_from_two_directories :
    let c : Config :=
      { dataDir := "/home/.purgecron",
        repository := { backend := .sqlite, path := some "jobs.db" } }
    let inA : Volume := ⟨["a"], [(["b"], .directory)]⟩
    ∃ s : Session,
      OpenRepository.ofConfig c inA (fun _ => ⟨"id-1", 0, 0⟩) = .ok ⟨Outbox.repository, s⟩ ∧
        c.documentedOutbox = "/home/.purgecron/jobs.db" ∧
        ¬ KeptAt (inA.locate c.documentedOutbox) s.handle s.volume ∧
        (Outbox.repository.submit "SELECT 1;" s).1 = .ok 1 ∧
        SameFiles (s.submitAll ["SELECT 1;"]).volume
          ((s.submitAll ["SELECT 1;"]).volume.enter ["b"]) ∧
        run .statements c { volume := (s.submitAll ["SELECT 1;"]).volume.enter ["b"] } =
          .ok (.printed "No submitted statements yet.\n" "") := by
  intro c inA
  let handle : Handle := ⟨"jobs.db", .file ["a", "jobs.db"]⟩
  let s : Session := ⟨handle, (openAt inA c.outboxPath).2, fun _ => ⟨"id-1", 0, 0⟩, 0⟩
  have hstart : OpenRepository.ofConfig c inA s.tickets = .ok ⟨Outbox.repository, s⟩ :=
    OpenRepository.ofConfig_of_openAt rfl (Prod.fst_eq_iff.mp (by decide +kernel))
  refine ⟨s, hstart, by decide +kernel, fun hkept => ?_, by decide +kernel,
    sameFiles_enter (by decide +kernel), by decide +kernel⟩
  exact absurd hkept.1 (by decide +kernel)

end Config
end RetentionJobs
