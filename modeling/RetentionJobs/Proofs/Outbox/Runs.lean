import Mathlib.Logic.Function.Basic
import RetentionJobs.Proofs.Outbox.Opening
import RetentionJobs.Proofs.Text.Decimal
import RetentionJobs.Proofs.Time.Instant
/-! Clients that open outboxes, close them, submit statements and list them, in any interleaving.
What is listed from a file is what has been acknowledged for it, in the order of submission. -/
namespace RetentionJobs.Outbox
open RetentionJobs.Time Volume

/-- What a client does with the handle in one of its slots. -/
inductive Action where
  | openAt (slot : Nat) (path : String)
  | close (slot : Nat)
  | submit (slot : Nat) (statement : String)
  | list (slot : Nat)

inductive Answer where
  | opened (result : Except RepositoryError Handle)
  | closed
  | submitted (result : Except RepositoryError Nat)
  | listed (result : Except RepositoryError (List Submitted))
  /-- There is no handle in the slot. -/
  | notOpen

/-- The handles that are open, on one volume and with one source of tickets. -/
structure Clients where
  volume : Volume
  handles : Nat → Option Handle := fun _ => none
  used : Nat := 0

namespace Clients

def act (tickets : Nat → Ticket) (c : Clients) : Action → Answer × Clients
  | .openAt slot path =>
    let (result, volume) := Outbox.openAt c.volume path
    (.opened result,
      { c with volume, handles := Function.update c.handles slot result.toOption })
  | .close slot => (.closed, { c with handles := Function.update c.handles slot none })
  | .submit slot statement =>
    match c.handles slot with
    | none => (.notOpen, c)
    | some handle =>
      let (result, s) := repository.submit statement ⟨handle, c.volume, tickets, c.used⟩
      (.submitted result,
        ⟨s.volume, Function.update c.handles slot (some s.handle), s.used⟩)
  | .list slot =>
    match c.handles slot with
    | none => (.notOpen, c)
    | some handle => (.listed (Session.list ⟨handle, c.volume, tickets, c.used⟩), c)

def run (tickets : Nat → Ticket) (c : Clients) : List Action → Clients
  | [] => c
  | a :: actions => run tickets (c.act tickets a).2 actions

/-- What an action adds to the statements that have been acknowledged for the file at `loc`. -/
def acknowledgedBy (tickets : Nat → Ticket) (loc : Location) (c : Clients) :
    Action → List Submitted
  | .submit slot statement =>
    match c.handles slot, (c.act tickets (.submit slot statement)).1 with
    | some handle, .submitted (.ok _) =>
      if handle.target = .file loc then
        [⟨(tickets c.used).id, statement, (tickets c.used).instant⟩]
      else []
    | _, _ => []
  | _ => []

/-- The statements that a run has got acknowledged for the file at `loc`, in the order of
submission. -/
def acknowledged (tickets : Nat → Ticket) (loc : Location) (c : Clients) :
    List Action → List Submitted
  | [] => []
  | a :: actions =>
    c.acknowledgedBy tickets loc a ++ acknowledged tickets loc (c.act tickets a).2 actions

end Clients

/-- A clock that shows instants of the years 0 to 9999 and never goes backwards. -/
structure SteadyClock (tickets : Nat → Ticket) : Prop where
  ordinary (n : Nat) : (tickets n).instant.IsOrdinary
  forward {m n : Nat} (h : m ≤ n) : ¬ (tickets n).instant.Before (tickets m).instant

/-! ### Listing rows in order -/

def Submitted.row (s : Submitted) : Row := ⟨s.id, s.statement, s.submittedAt.render⟩

theorem Submitted.read_row {s : Submitted} (h : s.submittedAt.IsOrdinary) : s.row.read = .ok s := by
  simp only [Row.read, row, Instant.read_render h]

theorem readAll_map_row {rows : List Submitted} (h : ∀ s ∈ rows, s.submittedAt.IsOrdinary) :
    Table.readAll (rows.map Submitted.row) = .ok rows := by
  induction rows with
  | nil => rfl
  | cons s rows ih =>
    obtain ⟨hs, hrows⟩ := List.forall_mem_cons.mp h
    simp only [List.map_cons, Table.readAll, Submitted.read_row hs, ih hrows]

/-- Rows that were inserted as time went on are listed in the order of insertion. -/
theorem list_map_row {rows : List Submitted} (hordinary : ∀ s ∈ rows, s.submittedAt.IsOrdinary)
    (hordered : rows.Pairwise (fun s t => ¬ t.submittedAt.Before s.submittedAt)) :
    Table.list (rows.map Submitted.row) = .ok rows := by
  have hpairwise : (rows.map Submitted.row).Pairwise
      (fun a b => decide (a.submittedAt ≤ b.submittedAt)) := by
    rw [List.pairwise_map]
    refine hordered.imp_of_mem fun {s t} hs ht h => ?_
    exact decide_eq_true ((Instant.render_le_render_iff (hordinary s hs) (hordinary t ht)).mpr h)
  rw [Table.list, Table.sorted, List.mergeSort_of_pairwise hpairwise, readAll_map_row hordinary]

/-! ### What every action keeps -/

namespace Clients

/-- The table of the file at `loc` holds what has been acknowledged, with the tickets used so
far, and whoever has the file open finds a table. -/
structure Consistent (tickets : Nat → Ticket) (loc : Location) (c : Clients)
    (rows : List Submitted) : Prop where
  table : (c.volume.tableAt loc).getD [] = rows.map Submitted.row
  handles {slot : Nat} {h : Handle} (hslot : c.handles slot = some h)
    (hfile : h.target = .file loc) : ∃ t, c.volume.tableAt loc = some t
  issued {s : Submitted} (h : s ∈ rows) : ∃ n < c.used, tickets n = ⟨s.id, s.submittedAt⟩
  ordered : rows.Pairwise (fun s t => ¬ t.submittedAt.Before s.submittedAt)

variable {tickets : Nat → Ticket} {loc : Location} {c : Clients} {rows : List Submitted}

theorem cases_of_update {handles : Nat → Option Handle} {slot slot' : Nat} {next : Option Handle}
    {h : Handle} (hslot : Function.update handles slot next slot' = some h) :
    next = some h ∨ handles slot' = some h := by
  by_cases hsame : slot' = slot
  · rw [hsame, Function.update_self] at hslot
    exact .inl hslot
  · rw [Function.update_of_ne hsame] at hslot
    exact .inr hslot

theorem Consistent.openAt (h : Consistent tickets loc c rows) (slot : Nat) (path : String) :
    Consistent tickets loc (c.act tickets (.openAt slot path)).2 rows := by
  have hkeeps := keeps_openAt c.volume path loc
  refine ⟨hkeeps.getD.trans h.table, fun hslot hfile => ?_, h.issued, h.ordered⟩
  obtain hopen | hslot := cases_of_update hslot
  · exact tableAt_openAt (Outcome.toOption_eq_some_iff.mp hopen) hfile
  · exact hkeeps.exists_table (h.handles hslot hfile)

theorem Consistent.close (h : Consistent tickets loc c rows) (slot : Nat) :
    Consistent tickets loc (c.act tickets (.close slot)).2 rows := by
  refine ⟨h.table, fun hslot hfile => ?_, h.issued, h.ordered⟩
  obtain hclosed | hslot := cases_of_update hslot
  · cases hclosed
  · exact h.handles hslot hfile

/-- The next ticket is used for a row at the end of the table. -/
theorem Consistent.append (hclock : SteadyClock tickets) (h : Consistent tickets loc c rows)
    (statement : String) {c' : Clients}
    (hused : c'.used = c.used + 1)
    (htable : c'.volume.tableAt loc = some (rows.map Submitted.row ++
      [⟨(tickets c.used).id, statement, (tickets c.used).instant.render⟩])) :
    Consistent tickets loc c'
      (rows ++ [⟨(tickets c.used).id, statement, (tickets c.used).instant⟩]) where
  table := by
    rw [htable, Option.getD_some, List.map_append]
    rfl
  handles _ _ := ⟨_, htable⟩
  issued {s} hs := by
    obtain hs | hs := List.mem_append.mp hs
    · obtain ⟨n, hn, hticket⟩ := h.issued hs
      exact ⟨n, by omega, hticket⟩
    · obtain rfl := List.mem_singleton.mp hs
      exact ⟨c.used, by omega, rfl⟩
  ordered := by
    refine List.pairwise_append.mpr ⟨h.ordered, List.pairwise_singleton _ _, ?_⟩
    intro s hs t ht
    obtain rfl := List.mem_singleton.mp ht
    obtain ⟨n, hn, hticket⟩ := h.issued hs
    have hforward := hclock.forward hn.le
    rwa [hticket] at hforward

/-- The next ticket is used, and the table is left as it is. -/
theorem Consistent.skip (h : Consistent tickets loc c rows) {slot : Nat} {handle handle' : Handle}
    {volume : Volume} (hslot : c.handles slot = some handle)
    (htarget : handle'.target = .file loc ↔ handle.target = .file loc)
    (htable : volume.tableAt loc = c.volume.tableAt loc) :
    Consistent tickets loc
      ⟨volume, Function.update c.handles slot (some handle'), c.used + 1⟩ rows where
  table := htable ▸ h.table
  handles hslot' hfile := by
    rw [htable]
    obtain hnext | hslot' := cases_of_update hslot'
    · obtain rfl := Option.some.inj hnext
      exact h.handles hslot (htarget.mp hfile)
    · exact h.handles hslot' hfile
  issued hs := by
    obtain ⟨n, hn, hticket⟩ := h.issued hs
    exact ⟨n, Nat.lt_succ_of_lt hn, hticket⟩
  ordered := h.ordered

theorem Consistent.submit (hclock : SteadyClock tickets) (h : Consistent tickets loc c rows)
    (slot : Nat) (statement : String) :
    Consistent tickets loc (c.act tickets (.submit slot statement)).2
      (rows ++ c.acknowledgedBy tickets loc (.submit slot statement)) := by
  cases hslot : c.handles slot with
  | none =>
    simp only [acknowledgedBy, act, hslot, List.append_nil]
    exact h
  | some handle =>
    generalize hrow : Row.mk (tickets c.used).id statement (tickets c.used).instant.render = row
    cases hinsert : handle.insert row c.volume with
    | error e =>
      simp only [acknowledgedBy, act, repository, Session.submit, hslot, hrow, hinsert,
        List.append_nil]
      exact h.skip hslot Iff.rfl rfl
    | ok next =>
      obtain ⟨handle', v'⟩ := next
      obtain ⟨t, htable, hset⟩ := Handle.eq_setTable_of_insert hinsert
      simp only [acknowledgedBy, act, repository, Session.submit, hslot, hrow, hinsert]
      split
      · rename_i hfile
        have hrows := h.table
        rw [Handle.table_of_file hfile htable, Option.getD_some] at hrows
        rw [Handle.setTable_of_file hfile] at hset
        obtain ⟨_, rfl⟩ := Prod.mk.inj hset
        refine h.append hclock statement rfl ?_
        rw [tableAt_put, hrows, hrow]
      · rename_i hother
        have hmoved := handle.setTable_file_iff (some (t ++ [row])) c.volume loc
        have hkept := Handle.tableAt_setTable_of_ne hother (some (t ++ [row])) c.volume
        rw [hset] at hmoved hkept
        rw [List.append_nil]
        exact h.skip hslot hmoved hkept

theorem Consistent.act (hclock : SteadyClock tickets) (h : Consistent tickets loc c rows)
    (a : Action) :
    Consistent tickets loc (c.act tickets a).2 (rows ++ c.acknowledgedBy tickets loc a) := by
  cases a with
  | openAt slot path =>
    simp only [acknowledgedBy, List.append_nil]
    exact h.openAt slot path
  | close slot =>
    simp only [acknowledgedBy, List.append_nil]
    exact h.close slot
  | submit slot statement => exact h.submit hclock slot statement
  | list slot =>
    simp only [acknowledgedBy, List.append_nil, Clients.act]
    split <;> exact h

theorem Consistent.run (hclock : SteadyClock tickets) (h : Consistent tickets loc c rows)
    (actions : List Action) :
    Consistent tickets loc (c.run tickets actions)
      (rows ++ c.acknowledged tickets loc actions) := by
  induction actions generalizing c rows with
  | nil => rwa [Clients.run, acknowledged, List.append_nil]
  | cons a actions ih =>
    rw [Clients.run, acknowledged, ← List.append_assoc]
    exact ih (h.act hclock a)

/-- Before anything is open, with no rows at `loc`. -/
theorem Consistent.start (hclosed : ∀ slot, c.handles slot = none)
    (hempty : (c.volume.tableAt loc).getD [] = []) : Consistent tickets loc c [] where
  table := hempty
  handles hslot _ := by rw [hclosed] at hslot; cases hslot
  issued hs := by cases hs
  ordered := List.Pairwise.nil

theorem Consistent.list (hclock : SteadyClock tickets) (h : Consistent tickets loc c rows)
    {slot : Nat} {handle : Handle} (hslot : c.handles slot = some handle)
    (hfile : handle.target = .file loc) :
    (c.act tickets (.list slot)).1 = .listed (.ok rows) := by
  obtain ⟨t, ht⟩ := h.handles hslot hfile
  have hrows := h.table
  rw [ht, Option.getD_some] at hrows
  have hordinary : ∀ s ∈ rows, s.submittedAt.IsOrdinary := by
    intro s hs
    obtain ⟨n, _, hticket⟩ := h.issued hs
    have hn := hclock.ordinary n
    rwa [hticket] at hn
  simp only [Clients.act, hslot, Session.list, Handle.list, Handle.table_of_tableAt hfile ht, hrows,
    list_map_row hordinary h.ordered]

/-- A row with a fresh id is taken. -/
theorem Consistent.submit_answer (h : Consistent tickets loc c rows)
    (hfresh : Function.Injective fun n => (tickets n).id)
    {slot : Nat} {handle : Handle} (hslot : c.handles slot = some handle)
    (hfile : handle.target = .file loc) (statement : String) :
    (c.act tickets (.submit slot statement)).1 = .submitted (.ok 1) := by
  obtain ⟨t, ht⟩ := h.handles hslot hfile
  have hrows := h.table
  rw [ht, Option.getD_some] at hrows
  have hunused : (t.any fun row => row.id == (tickets c.used).id) = false := by
    rw [hrows]
    refine List.any_eq_false.mpr fun row hrow hid => ?_
    obtain ⟨s, hs, rfl⟩ := List.mem_map.mp hrow
    obtain ⟨n, hn, hticket⟩ := h.issued hs
    have hsame : (tickets n).id = (tickets c.used).id := by
      rw [hticket]
      exact beq_iff_eq.mp hid
    exact hn.ne (hfresh hsame)
  simp only [Clients.act, hslot, repository, Session.submit, Handle.insert,
    Handle.table_of_tableAt hfile ht, Table.insert, hunused, Bool.false_eq_true, if_false]

end Clients

/-- Whatever clients do with outboxes, and in whatever order, a handle on the file at `loc` lists
exactly the statements acknowledged for that file so far, each once and in the order of submission.
With fresh ids it gets every statement acknowledged. -/
theorem Clients.list_run {tickets : Nat → Ticket} {loc : Location} {c : Clients}
    (hclock : SteadyClock tickets) (hclosed : ∀ slot, c.handles slot = none)
    (hempty : (c.volume.tableAt loc).getD [] = []) (actions : List Action) {slot : Nat}
    {handle : Handle} (hslot : (c.run tickets actions).handles slot = some handle)
    (hfile : handle.target = .file loc) :
    ((c.run tickets actions).act tickets (.list slot)).1 =
        .listed (.ok (c.acknowledged tickets loc actions)) ∧
      ((Function.Injective fun n => (tickets n).id) → ∀ statement,
        ((c.run tickets actions).act tickets (.submit slot statement)).1 =
          .submitted (.ok 1)) := by
  have hstart : Consistent tickets loc c [] := Consistent.start hclosed hempty
  have h := hstart.run hclock actions
  rw [List.nil_append] at h
  exact ⟨h.list hclock hslot hfile, fun hfresh => h.submit_answer hfresh hslot hfile⟩

/-- Tickets from the last second of a year on, with fractions of no, three and nine digits. -/
def newYearTickets (n : Nat) : Ticket where
  id := Text.natText n
  instant :=
    match n with
    | 0 => ⟨1735689599, 0⟩
    | 1 => ⟨1735689599, 500000000⟩
    | 2 => ⟨1735689599, 500000001⟩
    | _ => ⟨1735689600, 0⟩

theorem steadyClock_newYearTickets : SteadyClock newYearTickets where
  ordinary n := by
    match n with
    | 0 | 1 | 2 => decide +kernel
    | n + 3 =>
      change (⟨1735689600, 0⟩ : Instant).IsOrdinary
      decide +kernel
  forward {m n} h := by
    match m, n with
    | 0, 0 | 0, 1 | 0, 2 | 1, 1 | 1, 2 | 2, 2 => decide +kernel
    | 0, n + 3 | 1, n + 3 | 2, n + 3 | m + 3, n + 3 => simp [newYearTickets, Instant.Before]

/-- Two handles on one file, one of which is closed and opened again. -/
def takingTurns : List Action :=
  [.openAt 0 "/out/jobs.db", .openAt 1 "/out/./jobs.db", .submit 0 "SELECT 3;",
    .submit 1 "SELECT 2;", .close 0, .submit 1 "SELECT 2;", .openAt 0 "/out/jobs.db",
    .submit 0 "SELECT 'one';"]

theorem Clients.list_run_takingTurns :
    let c : Clients := { volume := {} }
    ((c.run newYearTickets takingTurns).act newYearTickets (.list 0)).1 =
        .listed (.ok [⟨"0", "SELECT 3;", 1735689599, 0⟩,
          ⟨"1", "SELECT 2;", 1735689599, 500000000⟩, ⟨"2", "SELECT 2;", 1735689599, 500000001⟩,
          ⟨"3", "SELECT 'one';", 1735689600, 0⟩]) ∧
      ((c.run newYearTickets takingTurns).act newYearTickets (.submit 0 "SELECT 4;")).1 =
        .submitted (.ok 1) := by
  intro c
  have hslot : (c.run newYearTickets takingTurns).handles 0 =
      some ⟨"/out/jobs.db", .file ["out", "jobs.db"]⟩ := by
    decide +kernel
  have hempty : (c.volume.tableAt ["out", "jobs.db"]).getD [] = [] := by decide +kernel
  have hacknowledged : c.acknowledged newYearTickets ["out", "jobs.db"] takingTurns =
      [⟨"0", "SELECT 3;", 1735689599, 0⟩, ⟨"1", "SELECT 2;", 1735689599, 500000000⟩,
        ⟨"2", "SELECT 2;", 1735689599, 500000001⟩, ⟨"3", "SELECT 'one';", 1735689600, 0⟩] := by
    decide +kernel
  have hfresh : Function.Injective fun n => (newYearTickets n).id :=
    fun m n h => Text.digits_injective (String.ofList_injective h)
  obtain ⟨hlist, hsubmit⟩ := Clients.list_run steadyClock_newYearTickets (fun _ => rfl) hempty
    takingTurns hslot rfl
  rw [hacknowledged] at hlist
  exact ⟨hlist, hsubmit hfresh "SELECT 4;"⟩

end RetentionJobs.Outbox
