import Mathlib.Data.List.Nodup
import RetentionJobs.Outbox.Store
import RetentionJobs.Proofs.Time.Instant
/-! The order in which an outbox lists rows, whoever has written them. They come in the order of the
texts of their instants, and two rows come as their instants ask for only if their texts are in the
order of their instants. -/
namespace RetentionJobs

/-! ### Stable sorting -/

namespace Sorting
variable {α : Type} {le le' : α → α → Bool}

/-- A relation that lists can be sorted by. -/
structure IsOrder (le : α → α → Bool) : Prop where
  trans (a b c : α) : le a b → le b c → le a c
  total (a b : α) : le a b || le b a

/-- The first element goes behind all that are strictly below it, and before the others. -/
theorem mergeSort_cons (h : IsOrder le) (a : α) (l : List α) :
    (a :: l).mergeSort le =
      (l.mergeSort le).filter (!le a ·) ++ a :: (l.mergeSort le).filter (le a) := by
  obtain ⟨front, back, hcons, hrest, hfront⟩ := List.mergeSort_cons h.trans h.total a l
  have hsorted := List.pairwise_mergeSort h.trans h.total (a :: l)
  rw [hcons] at hsorted
  have hback : ∀ b ∈ back, le a b := (List.pairwise_cons.mp (List.pairwise_append.mp hsorted).2.1).1
  rw [hcons, hrest, List.filter_append, List.filter_append, List.filter_eq_self.mpr hfront,
    List.filter_eq_self.mpr hback, List.filter_eq_nil_iff.mpr (by simpa using hback),
    List.filter_eq_nil_iff.mpr (by simpa using hfront), List.append_nil, List.nil_append]

/-- Elements are compared in the order of the list only. -/
theorem mergeSort_congr (h : IsOrder le) (h' : IsOrder le') {l : List α}
    (hl : l.Pairwise (fun a b => le a b = le' a b)) : l.mergeSort le = l.mergeSort le' := by
  induction l with
  | nil => rw [List.mergeSort_nil, List.mergeSort_nil]
  | cons a l ih =>
    obtain ⟨ha, hl⟩ := List.pairwise_cons.mp hl
    have hsame : ∀ b ∈ l.mergeSort le', le a b = le' a b :=
      fun b hb => ha b (List.mem_mergeSort.mp hb)
    rw [mergeSort_cons h, mergeSort_cons h', ih hl, List.filter_congr hsame,
      List.filter_congr (fun b hb => congrArg not (hsame b hb))]

theorem sublist_mergeSort_of_not_le (h : IsOrder le) {a b : α} {l : List α}
    (hab : ¬ le a b) (hl : [a, b].Sublist l) : [b, a].Sublist (l.mergeSort le) := by
  induction l with
  | nil => cases hl
  | cons x l ih =>
    obtain hl | ⟨rest, heq, hb⟩ := List.sublist_cons_iff.mp hl
    · obtain ⟨front, back, hcons, hrest, _⟩ := List.mergeSort_cons h.trans h.total x l
      have hpair := ih hl
      rw [hrest] at hpair
      rw [hcons]
      exact hpair.trans ((List.sublist_cons_self x back).append_left front)
    · obtain ⟨rfl, rfl⟩ := List.cons.inj heq
      have hmem : b ∈ (l.mergeSort le).filter (!le a ·) :=
        List.mem_filter.mpr ⟨List.mem_mergeSort.mpr (List.singleton_sublist.mp hb), by simp [hab]⟩
      rw [mergeSort_cons h]
      exact (List.singleton_sublist.mpr hmem).append
        (List.singleton_sublist.mpr List.mem_cons_self)

/-- Elements none of which is strictly below another keep their order. -/
theorem filter_mergeSort (h : IsOrder le) {p : α → Bool} (hp : ∀ a b, p a → p b → le a b)
    (l : List α) : (l.mergeSort le).filter p = l.filter p := by
  have hpairwise : (l.filter p).Pairwise (fun a b => le a b) :=
    List.pairwise_of_forall_mem_list fun a ha b hb =>
      hp a b (List.mem_filter.mp ha).2 (List.mem_filter.mp hb).2
  have hkept := (List.sublist_mergeSort h.trans h.total hpairwise List.filter_sublist).filter p
  rw [List.filter_filter, funext fun a => Bool.and_self (p a)] at hkept
  exact (hkept.eq_of_length ((List.mergeSort_perm l le).filter p).length_eq.symm).symm

theorem not_sublist_swap {a b : α} {l : List α} (hl : l.Nodup) (hab : [a, b].Sublist l) :
    ¬ [b, a].Sublist l := by
  induction l with
  | nil => cases hab
  | cons x l ih =>
    obtain ⟨hx, hl⟩ := List.nodup_cons.mp hl
    have hmem {c d : α} (h : [c, d].Sublist l) : d ∈ l := h.subset (by simp)
    intro hba
    cases hab with
    | cons _ hab =>
      cases hba with
      | cons _ hba => exact ih hl hab hba
      | cons_cons _ hba => exact hx (hmem hab)
    | cons_cons _ hb =>
      cases hba with
      | cons _ hba => exact hx (hmem hba)
      | cons_cons _ _ => exact hx (List.singleton_sublist.mp hb)

end Sorting

namespace Outbox
open RetentionJobs.Time Sorting

/-- Every row once, no row before an older one, and rows of one instant as they were inserted. -/
structure OldestFirst (inserted listed : List Submitted) : Prop where
  perm : listed.Perm inserted
  ascending : listed.Pairwise (fun s t => ¬ t.submittedAt.Before s.submittedAt)
  stable (i : Instant) :
    listed.filter (·.submittedAt = i) = inserted.filter (·.submittedAt = i)

/-! ### Reading rows -/

/-- The instant of a row, if its text is one. -/
def Row.instant? (row : Row) : Option Instant := (Instant.read row.submittedAt).toOption

def Row.IsReadable (row : Row) : Prop := row.instant?.isSome

instance (row : Row) : Decidable row.IsReadable := inferInstanceAs (Decidable (_ = true))

/-- What a row that can be read is read as. -/
def Row.entry (row : Row) : Submitted := ⟨row.id, row.statement, row.instant?.getD ⟨0, 0⟩⟩

theorem Row.read_eq_ok_iff {row : Row} {s : Submitted} :
    row.read = .ok s ↔ row.IsReadable ∧ s = row.entry := by
  unfold read IsReadable entry instant?
  cases Instant.read row.submittedAt with
  | ok i => simp [Except.toOption, eq_comm]
  | error e => simp [Except.toOption]

theorem readAll_eq_ok_iff {t : Table} {rows : List Submitted} :
    t.readAll = .ok rows ↔ (∀ row ∈ t, row.IsReadable) ∧ rows = t.map Row.entry := by
  induction t generalizing rows with
  | nil => simp [Table.readAll, eq_comm]
  | cons row t ih =>
    rw [Table.readAll, List.forall_mem_cons, List.map_cons]
    cases hread : row.read with
    | error e =>
      have hnot : ¬ row.IsReadable := fun h => by
        have hok := Row.read_eq_ok_iff.mpr ⟨h, rfl⟩
        rw [hread] at hok
        cases hok
      simp [hnot]
    | ok s =>
      obtain ⟨hreadable, rfl⟩ := Row.read_eq_ok_iff.mp hread
      cases hrest : Table.readAll t with
      | error e =>
        have hnot : ¬ ∀ row ∈ t, row.IsReadable := fun h => by
          have hok := ih.mpr ⟨h, rfl⟩
          rw [hrest] at hok
          cases hok
        simp [hnot]
      | ok ss =>
        obtain ⟨hrows, rfl⟩ := ih.mp hrest
        simpa [hreadable, eq_comm] using fun _ => hrows

/-- All rows are listed, or none. -/
theorem list_eq_ok_iff {t : Table} {listed : List Submitted} :
    t.list = .ok listed ↔ (∀ row ∈ t, row.IsReadable) ∧ listed = t.sorted.map Row.entry := by
  rw [Table.list, readAll_eq_ok_iff]
  simp only [t.sorted_perm.mem_iff]

/-! ### The two orders -/

def byText (a b : Row) : Bool := decide (a.submittedAt ≤ b.submittedAt)

def byInstant (a b : Submitted) : Bool := decide (¬ b.submittedAt.Before a.submittedAt)

theorem byInstant_iff {a b : Submitted} :
    byInstant a b ↔ ¬ b.submittedAt.Before a.submittedAt := decide_eq_true_iff

theorem isOrder_byText : IsOrder byText where
  trans a b c hab hbc := by
    simp only [byText, decide_eq_true_eq] at *
    exact String.le_trans hab hbc
  total a b := by
    simp only [byText, Bool.or_eq_true, decide_eq_true_eq]
    exact String.le_total _ _

theorem isOrder_byInstant : IsOrder byInstant where
  trans a b c hab hbc := by
    simp only [byInstant_iff, Instant.Before] at *
    omega
  total a b := by
    simp only [Bool.or_eq_true, byInstant_iff, Instant.Before]
    omega

theorem isOrder_byEntry : IsOrder (fun a b : Row => byInstant a.entry b.entry) where
  trans _ _ _ := isOrder_byInstant.trans _ _ _
  total _ _ := isOrder_byInstant.total _ _

/-- The texts of two rows are in the order of their instants. -/
def TextsTell (a b : Row) : Prop :=
  ∀ i ∈ a.instant?, ∀ j ∈ b.instant?, (a.submittedAt ≤ b.submittedAt ↔ ¬ j.Before i)

instance (a b : Row) : Decidable (TextsTell a b) := inferInstanceAs (Decidable (∀ _ ∈ _, _))

theorem textsTell_iff {a b : Row} (ha : a.IsReadable) (hb : b.IsReadable) :
    TextsTell a b ↔ byText a b = byInstant a.entry b.entry := by
  obtain ⟨i, hi⟩ := Option.isSome_iff_exists.mp ha
  obtain ⟨j, hj⟩ := Option.isSome_iff_exists.mp hb
  simp only [TextsTell, byText, byInstant, Row.entry, hi, hj, Option.mem_some_iff, forall_eq',
    Option.getD_some, decide_eq_decide]

theorem oldestFirst_mergeSort (rows : List Submitted) :
    OldestFirst rows (rows.mergeSort byInstant) where
  perm := List.mergeSort_perm rows byInstant
  ascending :=
    (List.pairwise_mergeSort isOrder_byInstant.trans isOrder_byInstant.total rows).imp
      of_decide_eq_true
  stable i := by
    refine filter_mergeSort isOrder_byInstant (fun a b ha hb => ?_) rows
    rw [decide_eq_true_iff] at ha hb
    simp [byInstant_iff, Instant.Before, ha, hb]

/-- Rows with texts that tell their order are listed as if they had been sorted by their instants. -/
theorem oldestFirst_of_textsTell {t : Table} (hreadable : ∀ row ∈ t, row.IsReadable)
    (h : t.Pairwise TextsTell) : OldestFirst (t.map Row.entry) (t.sorted.map Row.entry) := by
  have hagree : t.Pairwise (fun a b => byText a b = byInstant a.entry b.entry) :=
    h.imp_of_mem fun ha hb => (textsTell_iff (hreadable _ ha) (hreadable _ hb)).mp
  have hsorted : t.sorted = t.mergeSort (fun a b => byInstant a.entry b.entry) :=
    mergeSort_congr isOrder_byText isOrder_byEntry hagree
  rw [hsorted, List.map_mergeSort (s := byInstant) fun _ _ _ _ => rfl]
  exact oldestFirst_mergeSort _

/-- Two rows whose texts are the other way around are listed that way. -/
theorem textsTell_of_oldestFirst {t : Table} (hreadable : ∀ row ∈ t, row.IsReadable)
    (hids : (t.map (·.id)).Nodup) (h : OldestFirst (t.map Row.entry) (t.sorted.map Row.entry)) :
    t.Pairwise TextsTell := by
  have hrows : (t.map Row.entry).Nodup := by
    refine List.Nodup.of_map (·.id) ?_
    rwa [List.map_map]
  have hlisted {a b : Row} (hab : [a, b].Sublist t.sorted) : byInstant a.entry b.entry :=
    byInstant_iff.mpr (List.pairwise_iff_forall_sublist.mp h.ascending (hab.map Row.entry))
  refine List.pairwise_iff_forall_sublist.mpr fun {a b} hab => ?_
  rw [textsTell_iff (hreadable a (hab.subset (by simp))) (hreadable b (hab.subset (by simp))),
    Bool.eq_iff_iff]
  constructor
  · intro htext
    exact hlisted (List.pair_sublist_mergeSort isOrder_byText.trans isOrder_byText.total htext hab)
  · intro hinstant
    by_contra htext
    have hba : [b, a].Sublist t.sorted := sublist_mergeSort_of_not_le isOrder_byText htext hab
    have hequal : b.entry.submittedAt = a.entry.submittedAt := by
      have hback := hlisted hba
      cases hi : a.entry.submittedAt
      cases hj : b.entry.submittedAt
      simp only [byInstant_iff, Instant.Before, hi, hj, Instant.mk.injEq] at *
      omega
    -- among the rows of one instant, they would be listed in both orders
    have hswapped := (hba.map Row.entry).filter (·.submittedAt = a.entry.submittedAt)
    have hkept := (hab.map Row.entry).filter (·.submittedAt = a.entry.submittedAt)
    rw [h.stable] at hswapped
    simp only [List.map_cons, List.map_nil, List.filter_cons, List.filter_nil, hequal, decide_true,
      if_true] at hswapped hkept
    exact not_sublist_swap (hrows.filter _) hkept hswapped

/-- The text of the instant is one that an outbox writes. -/
def Row.IsOwn (row : Row) : Prop := ∃ i : Instant, i.IsOrdinary ∧ row.submittedAt = i.render

theorem textsTell_of_isOwn {a b : Row} (ha : a.IsOwn) (hb : b.IsOwn) : TextsTell a b := by
  obtain ⟨i, hi, hwritten⟩ := ha
  obtain ⟨j, hj, hwritten'⟩ := hb
  intro i' hi' j' hj'
  rw [Row.instant?, hwritten, Instant.read_render hi] at hi'
  rw [Row.instant?, hwritten', Instant.read_render hj] at hj'
  obtain rfl := Option.some.inj hi'
  obtain rfl := Option.some.inj hj'
  rw [hwritten, hwritten']
  exact Instant.render_le_render_iff hi hj

/-- The rows of a table are listed exactly if all of their instants can be read, and then each of
them once. They are listed oldest first if of any two the texts are in the order of the instants,
which is so if an outbox has written these texts. With an id for each row there is no other case. -/
theorem list_oldest_first_iff {h : Handle} {v : Volume} {t : Table}
    (htable : h.table v = .ok (some t)) :
    ((∃ listed, h.list v = .ok listed) ↔ ∀ row ∈ t, row.IsReadable) ∧
      ∀ listed, h.list v = .ok listed →
        ∃ inserted, t.readAll = .ok inserted ∧ listed.Perm inserted ∧
          (t.Pairwise TextsTell → OldestFirst inserted listed) ∧
          ((∀ row ∈ t, row.IsOwn) → OldestFirst inserted listed) ∧
          ((t.map (·.id)).Nodup → (OldestFirst inserted listed ↔ t.Pairwise TextsTell)) := by
  have hlist : h.list v = t.list := by rw [Handle.list, htable]
  rw [hlist]
  refine ⟨⟨fun ⟨_, hok⟩ => (list_eq_ok_iff.mp hok).1, fun h => ⟨_, list_eq_ok_iff.mpr ⟨h, rfl⟩⟩⟩, ?_⟩
  intro listed hok
  obtain ⟨hreadable, rfl⟩ := list_eq_ok_iff.mp hok
  have htells := oldestFirst_of_textsTell hreadable
  refine ⟨_, readAll_eq_ok_iff.mpr ⟨hreadable, rfl⟩, t.sorted_perm.map _, htells, fun hown => ?_,
    fun hids => ⟨textsTell_of_oldestFirst hreadable hids, htells⟩⟩
  refine htells (List.pairwise_of_forall_mem_list fun a ha b hb => ?_)
  exact textsTell_of_isOwn (hown a ha) (hown b hb)

/-! ### Tables that others have written to -/

/-- An outbox with some rows. -/
def holding (t : Table) : Volume := { nodes := [(["out", "jobs.db"], .database (some t))] }

def holder : Handle := ⟨"/out/jobs.db", .file ["out", "jobs.db"]⟩

/-- Rows with several offsets from universal time, not in the order of their instants. -/
def travelling : Table :=
  [⟨"c", "SELECT 3;", "2024-01-02T00:00:00.25-03:00"⟩, ⟨"a", "SELECT 1;", "2024-01-01T00:00:00Z"⟩,
    ⟨"b", "SELECT 2;", "2024-01-01t10:00:00.5+01:30"⟩]

theorem list_oldest_first_travelling :
    holder.table (holding travelling) = .ok (some travelling) ∧ (travelling.map (·.id)).Nodup ∧
      ∃ inserted listed, travelling.readAll = .ok inserted ∧
        holder.list (holding travelling) = .ok listed ∧ OldestFirst inserted listed := by
  have htable : holder.table (holding travelling) = .ok (some travelling) := rfl
  have hids : (travelling.map (·.id)).Nodup := by decide
  obtain ⟨hreadable, hlisted⟩ := list_oldest_first_iff htable
  obtain ⟨listed, hlist⟩ := hreadable.mpr (by decide +kernel)
  obtain ⟨inserted, hinserted, _, _, _, horder⟩ := hlisted listed hlist
  have holdest := (horder hids).mpr (by decide +kernel)
  exact ⟨htable, hids, inserted, listed, hinserted, hlist, holdest⟩

/-- Two rows half a second apart. -/
def halfSecond : Table :=
  [⟨"a", "SELECT 1;", "2024-01-01T00:00:00Z"⟩, ⟨"b", "SELECT 2;", "2024-01-01T00:00:00.5Z"⟩]

/-- The later row is listed first, as the point of its fraction comes before the letter that the
other text ends with. -/
theorem list_not_oldest_first :
    let older : Submitted := ⟨"a", "SELECT 1;", 63871286400, 0⟩
    let newer : Submitted := ⟨"b", "SELECT 2;", 63871286400, 500000000⟩
    holder.table (holding halfSecond) = .ok (some halfSecond) ∧ (halfSecond.map (·.id)).Nodup ∧
      halfSecond.readAll = .ok [older, newer] ∧
      holder.list (holding halfSecond) = .ok [newer, older] ∧
      ¬ OldestFirst [older, newer] [newer, older] := by
  intro older newer
  have hsorted : halfSecond.mergeSort byText = halfSecond.reverse := by
    rw [halfSecond, mergeSort_cons isOrder_byText, List.mergeSort_singleton]
    decide +kernel
  have hlist : halfSecond.list = .ok (halfSecond.reverse.map Row.entry) :=
    list_eq_ok_iff.mpr ⟨by decide +kernel, congrArg (List.map Row.entry) hsorted.symm⟩
  have hentries : halfSecond.reverse.map Row.entry = [newer, older] := by decide +kernel
  refine ⟨rfl, by decide, by decide +kernel, hentries ▸ hlist, fun h => ?_⟩
  exact absurd (List.rel_of_pairwise_cons h.ascending List.mem_cons_self) (by decide)

end Outbox
end RetentionJobs
