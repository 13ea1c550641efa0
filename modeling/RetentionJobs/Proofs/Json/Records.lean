import RetentionJobs.Proofs.Json.Readers
/-! Records. An object is read member by member: a known key hands its value to its field, and an
unknown one is passed over with its value. What is read does not depend on the order of the members,
and no field is read twice. -/
namespace RetentionJobs.Json
open RetentionJobs.Text

section
variable {σ α : Type} {fields : List (Member σ)} {s s' t : σ} {cs rest : List Char}

/-! ### One member -/

/-- What comes of the value of a member: its field reads it, or it is passed over. -/
def member (fields : List (Member σ)) (name : String) (s : σ) : Reader σ := fun cs =>
  match fields.find? (fun f => f.key == name) with
  | none => do return (s, ← skip cs)
  | some f => if f.seen s then .error .mismatch else f.read s cs

/-- What is read after a member: the end of the object, or the members after it. -/
def onward (fields : List (Member σ)) (fuel : Nat) (s : σ) : Reader σ := fun cs =>
  match skipGap cs with
  | '\x7d' :: rest => .ok (s, rest)
  | ',' :: rest => members fields fuel s rest
  | _ => .error .malformed

theorem members_eq {body key afterKey value : List Char} (hopen : skipGap cs = '"' :: body)
    (hbody : stringBody body = .ok (key, afterKey)) (hcolon : colon afterKey = .ok value)
    (fuel : Nat) (s : σ) :
    members fields (fuel + 1) s cs =
      (member fields (.ofList key) s value >>= fun (s', after) => onward fields fuel s' after) := by
  simp only [members, hopen, hbody, hcolon, Outcome.ok_bind]
  split
  · rename_i e hread
    have hmember : member fields (.ofList key) s value = .error e := hread
    rw [hmember]
    rfl
  · rename_i s' after hread
    have hmember : member fields (.ofList key) s value = .ok (s', after) := hread
    rw [hmember]
    rfl

/-- What is read as a member has a key, a colon and a value. -/
theorem members_eq_ok {fuel : Nat} {x : σ × List Char} (h : members fields fuel s cs = .ok x) :
    ∃ n, fuel = n + 1 ∧ ∃ body key afterKey value, skipGap cs = '"' :: body ∧
      stringBody body = .ok (key, afterKey) ∧ colon afterKey = .ok value := by
  obtain _ | n := fuel
  · cases h
  unfold members at h
  split at h
  · rename_i body hopen
    split at h
    · cases h
    · rename_i key afterKey hbody
      have herror : ∀ (e : ReadError) (r : List Char → Except ReadError (σ × List Char)),
        (Except.error e >>= r) = .error e := fun _ _ => rfl
      cases hcolon : colon afterKey with
      | error e =>
        simp only [hcolon, herror] at h
        split at h
        · cases h
        · rename_i hread
          split at hread
          · cases hread
          · split at hread <;> cases hread
      | ok value => exact ⟨n, rfl, body, key, afterKey, value, hopen, hbody, hcolon⟩
  · cases h

theorem members_entry (m : Named) (fuel : Nat) (s : σ) :
    members fields (fuel + 1) s (m.write ++ cs) =
      (member fields m.name s (m.value.write ++ cs) >>= fun (s', after) =>
        onward fields fuel s' after) := by
  obtain ⟨body, hbody, htext⟩ := m.spelled
  rw [members_eq (Entry.skipGap_write htext _) (stringBody_of_isBody hbody)
    (colon_append m.key.gap_after _), String.ofList_toList]

theorem members_of_member {m : Named} {after : List Char}
    (h : member fields m.name s (m.value.write ++ cs) = .ok (s', after)) (fuel : Nat) :
    members fields (fuel + 1) s (m.write ++ cs) = onward fields fuel s' after := by
  rw [members_entry, h]
  rfl

theorem onward_last {gap : List Char} (h : IsGap gap) (fuel : Nat) (s : σ) (rest : List Char) :
    onward fields fuel s (gap ++ '\x7d' :: rest) = .ok (s, rest) := by
  rw [onward, skipGap_append h]
  rfl

theorem onward_more {gap : List Char} (h : IsGap gap) (fuel : Nat) (s : σ) (cs : List Char) :
    onward fields fuel s (gap ++ ',' :: cs) = members fields fuel s cs := by
  rw [onward, skipGap_append h]
  rfl

theorem find?_eq_some (hnodup : (fields.map Member.key).Nodup) {f : Member σ} (hf : f ∈ fields) :
    fields.find? (fun g => g.key == f.key) = some f := by
  induction fields with
  | nil => simp at hf
  | cons g fields ih =>
    obtain ⟨hg, hnodup⟩ := List.nodup_cons.mp hnodup
    obtain rfl | hf := List.mem_cons.mp hf
    · simp
    · have hne : g.key ≠ f.key := fun heq => hg (heq ▸ List.mem_map_of_mem hf)
      simp [hne, ih hnodup hf]

theorem member_of_not_mem {name : String} (h : name ∉ fields.map Member.key) (s : σ)
    (cs : List Char) : member fields name s cs = do return (s, ← skip cs) := by
  have hnone : fields.find? (fun g => g.key == name) = none := by
    rw [List.find?_eq_none]
    intro g hg heq
    exact h (List.mem_map.mpr ⟨g, hg, by simpa using heq⟩)
  rw [member, hnone]

/-! ### All members -/

/-- The member leads from one state to another. -/
def Takes (fields : List (Member σ)) (m : Named) (s s' : σ) : Prop :=
  ∀ rest, Closes rest →
    member fields m.name s (m.value.write ++ rest) = .ok (s', m.value.after ++ rest)

/-- The members, one after another, lead from one state to another. -/
inductive Run (fields : List (Member σ)) : σ → List Named → σ → Prop
  | nil {s : σ} : Run fields s [] s
  | cons {s s' t : σ} {m : Named} {ms : List Named} (hm : Takes fields m s s')
    (hms : Run fields s' ms t) : Run fields s (m :: ms) t

theorem takes_unknown {m : Named} (h : m.name ∉ fields.map Member.key)
    (hvalue : IsValue m.value.text) : Takes fields m s s := by
  intro rest hrest
  have hlen := m.value.length_text_le
  have hskip : skip (m.value.write ++ rest) = .ok (m.value.after ++ rest) := by
    apply (hvalue.skippedBy _).write hrest
    simp only [List.length_append]
    omega
  rw [member_of_not_mem h, hskip]
  rfl

theorem takes_known (hnodup : (fields.map Member.key).Nodup) {f : Member σ} (hf : f ∈ fields)
    {m : Named} (hname : m.name = f.key) (hseen : f.seen s = false)
    (h : ReadsAs (f.read s) s' m.value.text) : Takes fields m s s' := by
  intro rest hrest
  simp [member, hname, find?_eq_some hnodup hf, hseen, h.write hrest]

theorem members_of_run {m : Named} {ms : List Named} {fuel : Nat} (h : Run fields s (m :: ms) t)
    (hfuel : ms.length < fuel) :
    members fields fuel s (m.write ++ (more ((ms.map Named.toEntry).map Entry.write) ++
      '\x7d' :: rest)) = .ok (t, rest) := by
  induction ms generalizing m s fuel with
  | nil =>
    obtain _ | fuel := fuel
    · simp at hfuel
    obtain _ | ⟨hm, ⟨⟩⟩ := h
    have hclose : Closes ('\x7d' :: rest) := closes_more (.inr rfl) [] rest
    exact (members_of_member (hm _ hclose) fuel).trans (onward_last m.value.gap_after fuel t rest)
  | cons next ms ih =>
    obtain _ | fuel := fuel
    · simp at hfuel
    obtain _ | ⟨hm, hms⟩ := h
    have hclose := closes_more (.inr rfl) (((next :: ms).map Named.toEntry).map Entry.write) rest
    rw [members_of_member (hm _ hclose), List.map_cons, List.map_cons, more_cons,
      List.cons_append, List.append_assoc, onward_more m.value.gap_after]
    exact ih hms (by simpa using hfuel)

/-! ### Records -/

/-- What a record is made of when its object has been read. -/
def finished (finish : σ → Option α) : σ × List Char → Except ReadError (α × List Char) :=
  fun (s, rest) =>
    match finish s with
    | none => .error .mismatch
    | some a => .ok (a, rest)

theorem record_empty {start : σ} {finish : σ → Option α} {after : List Char}
    (hopen : skipGap cs = '\x7b' :: after) (hclose : skipGap after = '\x7d' :: rest) :
    record fields start finish cs = finished finish (start, rest) := by
  simp only [record, hopen, hclose]
  rfl

@[simp] theorem members_skipGap (fuel : Nat) (s : σ) (cs : List Char) :
    members fields fuel s (skipGap cs) = members fields fuel s cs := by
  cases fuel with
  | zero => rfl
  | succ fuel => simp [members]

theorem record_members {start : σ} {finish : σ → Option α} {after : List Char}
    (hopen : skipGap cs = '\x7b' :: after) (hmember : ∀ ds, skipGap after ≠ '\x7d' :: ds) :
    record fields start finish cs =
      (members fields ((skipGap after).length + 1) start after >>= finished finish) := by
  rw [record, hopen, ← members_skipGap]
  simp only
  split
  · rename_i hread
    rw [hread]
    rfl
  · rename_i hread
    rw [hread]
    rfl

/-- The members of an object are read from the first of them on. -/
theorem record_cons {start : σ} {finish : σ → Option α} {gap : List Char} (hgap : IsGap gap)
    (m : Named) (ms : List Named) (rest : List Char) :
    ∃ fuel, ms.length < fuel ∧
      record fields start finish (gap ++ ('\x7b' :: (join [',']
        (((m :: ms).map Named.toEntry).map Entry.write) ++ ['\x7d']) ++ rest)) =
      (members fields fuel start (m.write ++ (more ((ms.map Named.toEntry).map Entry.write) ++
        '\x7d' :: rest)) >>= finished finish) := by
  have hopen : ∀ cs, skipGap (gap ++ '\x7b' :: cs) = '\x7b' :: cs := fun _ => skipGap_append hgap _
  obtain ⟨body, -, htext⟩ := m.spelled
  have hkey := Entry.skipGap_write htext
    (more ((ms.map Named.toEntry).map Entry.write) ++ '\x7d' :: rest)
  rw [List.cons_append, List.map_cons, List.map_cons, join_cons_more, List.append_assoc,
    List.append_assoc, List.singleton_append]
  refine ⟨_, ?_, record_members (hopen _) (fun ds => by rw [hkey]; simp)⟩
  have hlen := length_le_more ((ms.map Named.toEntry).map Entry.write)
  simp only [hkey, List.length_map, List.length_append, List.length_cons] at hlen ⊢
  omega

/-- An object is read when its members lead from the start to a state that makes a record. -/
theorem ReadsAs.record {start : σ} {finish : σ → Option α} {ms : List Named} {a : α}
    (hobject : IsObjectOf ms cs) (h : Run fields start ms t) (hfinish : finish t = some a) :
    ReadsAs (record fields start finish) a cs := by
  have hdone : ∀ rest, finished finish (t, rest) = .ok (a, rest) := by simp [finished, hfinish]
  refine ⟨hobject.startsValue (by decide), fun gap rest hgap _ => ?_⟩
  obtain ⟨hnil, inner, hinner, rfl⟩ | ⟨hne, rfl⟩ := hobject
  · obtain rfl : ms = [] := by simpa using hnil
    obtain _ | _ := h
    rw [List.cons_append, List.append_assoc, List.singleton_append,
      record_empty (skipGap_append hgap _) (skipGap_append hinner _), hdone]
  · obtain _ | ⟨m, ms⟩ := ms
    · simp at hne
    obtain ⟨fuel, hfuel, hrecord⟩ := record_cons (α := α) hgap m ms rest
    rw [hrecord, members_of_run h hfuel, Outcome.ok_bind, hdone]

/-! ### The members that carry a record -/

/-- The states of reading `a`, by the names that have been read: each field is seen when its name
is among them, and reads its own part. -/
structure Tracks (slots : List (Slot α)) (fields : List (Member σ)) (a : α)
    (state : List String → σ) : Prop where
  parts : List.Forall₂ (fun slot f => slot.key = f.key ∧ ∀ names,
    f.seen (state names) = decide (f.key ∈ names) ∧
      ∀ cs, slot.carries a cs → ReadsAs (f.read (state names)) (state (f.key :: names)) cs)
    slots fields
  other : ∀ name ∉ slots.map Slot.key, ∀ names, state (name :: names) = state names

namespace Tracks
variable {slots : List (Slot α)} {a : α} {state : List String → σ}

theorem keys (h : Tracks slots fields a state) : slots.map Slot.key = fields.map Member.key := by
  have hkeys := h.parts
  clear h
  induction hkeys with
  | nil => rfl
  | cons hslot _ ih => rw [List.map_cons, List.map_cons, hslot.1, ih]

theorem exists_field (h : Tracks slots fields a state) {slot : Slot α} (hslot : slot ∈ slots) :
    ∃ f ∈ fields, slot.key = f.key ∧ ∀ names, f.seen (state names) = decide (f.key ∈ names) ∧
      ∀ cs, slot.carries a cs → ReadsAs (f.read (state names)) (state (f.key :: names)) cs := by
  have hparts := h.parts
  clear h
  induction hparts with
  | nil => simp at hslot
  | cons hpart _ ih =>
    obtain rfl | hslot := List.mem_cons.mp hslot
    · exact ⟨_, List.mem_cons_self, hpart⟩
    · obtain ⟨f, hf, hpart⟩ := ih hslot
      exact ⟨f, List.mem_cons_of_mem _ hf, hpart⟩

/-- What is seen of the names before a member is what is seen of them and its own name after it. -/
theorem takes (h : Tracks slots fields a state) (hnodup : (fields.map Member.key).Nodup)
    {m : Named} {names : List String}
    (hknown : ∀ slot ∈ slots, m.name = slot.key → slot.carries a m.value.text ∧ slot.key ∉ names)
    (hother : m.name ∉ slots.map Slot.key → IsValue m.value.text) :
    Takes fields m (state names) (state (m.name :: names)) := by
  by_cases hmem : m.name ∈ slots.map Slot.key
  · obtain ⟨slot, hslot, hname⟩ := List.mem_map.mp hmem
    obtain ⟨hcarries, hnew⟩ := hknown slot hslot hname.symm
    obtain ⟨f, hf, hkey, hpart⟩ := h.exists_field hslot
    obtain ⟨hseen, hreads⟩ := hpart names
    rw [hkey] at hname hnew
    rw [← hname]
    exact takes_known hnodup hf hname.symm (by simp [hseen, hnew]) (hreads _ hcarries)
  · rw [h.other m.name hmem]
    exact takes_unknown (h.keys ▸ hmem) (hother hmem)

theorem run_append (h : Tracks slots fields a state) (hnodup : (fields.map Member.key).Nodup)
    {ms : List Named} {names : List String}
    (hknown : ∀ slot ∈ slots, ∀ m ∈ ms, m.name = slot.key → slot.carries a m.value.text)
    (honce : ∀ slot ∈ slots, (names ++ ms.map Named.name).count slot.key ≤ 1)
    (hothers : ∀ m ∈ ms, m.name ∉ slots.map Slot.key → IsValue m.value.text) :
    Run fields (state names) ms (state ((ms.map Named.name).reverse ++ names)) := by
  induction ms generalizing names with
  | nil => exact .nil
  | cons m ms ih =>
    rw [List.map_cons, List.reverse_cons, List.append_assoc, List.singleton_append]
    apply Run.cons
    · apply h.takes hnodup _ (hothers m List.mem_cons_self)
      intro slot hslot hname
      refine ⟨hknown slot hslot m List.mem_cons_self hname, fun hmem => ?_⟩
      -- the name is among those before the member and is the name of the member too
      have hcount := honce slot hslot
      have hpos := List.count_pos_iff.mpr hmem
      rw [List.map_cons, List.count_append, hname, List.count_cons_self] at hcount
      omega
    · apply ih (fun slot hslot m' hm' => hknown slot hslot m' (List.mem_cons_of_mem m hm')) _
        (fun m' hm' => hothers m' (List.mem_cons_of_mem m hm'))
      intro slot hslot
      have hcount := honce slot hslot
      simp only [List.map_cons, List.cons_append, List.count_append, List.count_cons] at hcount ⊢
      omega

/-- The members that carry a record, in whatever order they come, lead to the same state. -/
theorem run (h : Tracks slots fields a state) (hnodup : (fields.map Member.key).Nodup)
    {ms : List Named} (hms : Carries slots a ms) :
    Run fields (state []) ms (state (ms.map Named.name).reverse) := by
  have hrun : Run fields (state []) ms (state ((ms.map Named.name).reverse ++ [])) :=
    h.run_append hnodup hms.known (by simpa using hms.once) hms.others
  rwa [List.append_nil] at hrun

/-- Every text of a record is read as the record. -/
theorem readsAs (h : Tracks slots fields a state) (hnodup : (fields.map Member.key).Nodup)
    {finish : σ → Option α}
    (hfinish : ∀ names, (∀ slot ∈ slots, slot.key ∉ names → slot.optional a) →
      finish (state names) = some a) (hrecord : IsRecord slots a cs) :
    ReadsAs (record fields (state []) finish) a cs := by
  obtain ⟨ms, hobject, hms⟩ := hrecord
  apply ReadsAs.record hobject (h.run hnodup hms)
  apply hfinish
  simpa using hms.complete

end Tracks

/-! ### What records take -/

/-- What a field reads is one value. It is seen from then on, and so is what was seen before. -/
def Settles {σ : Type} (fields : List (Member σ)) (f : Member σ) : Prop :=
  ∀ s cs s' rest, f.read s cs = .ok (s', rest) →
    Passes cs rest ∧ f.seen s' ∧ ∀ g ∈ fields, g.seen s → g.seen s'

/-- The fields of a record. -/
structure Lawful {σ : Type} (fields : List (Member σ)) : Prop where
  nonempty : fields ≠ []
  nodup : (fields.map Member.key).Nodup
  settles : ∀ f ∈ fields, Settles fields f

theorem mem_of_find? {name : String} {f : Member σ}
    (h : fields.find? (fun g => g.key == name) = some f) : f ∈ fields ∧ f.key = name :=
  ⟨List.mem_of_find?_eq_some h, by simpa using List.find?_some h⟩

theorem finished_eq_ok {finish : σ → Option α} {y : σ × List Char} {a : α}
    (h : finished finish y = .ok (a, rest)) : y.2 = rest := by
  simp only [finished] at h
  split at h
  · cases h
  · exact (Prod.mk.inj (Except.ok.inj h)).2

namespace Lawful
variable (h : Lawful fields)
include h

theorem member (name : String) (s : σ) : Consumes (member fields name s) := by
  intro cs s' rest hread
  unfold Json.member at hread
  split at hread
  · obtain ⟨after, hskip, heq⟩ := Outcome.bind_eq_ok_iff.mp hread
    obtain ⟨-, rfl⟩ := Prod.mk.inj (Except.ok.inj heq)
    exact ⟨_, hskip⟩
  · rename_i f hfind
    split at hread
    · cases hread
    · exact (h.settles f (mem_of_find? hfind).1 s cs s' rest hread).1

theorem passesMembers {fuel : Nat} (hread : members fields fuel s cs = .ok (t, rest)) :
    PassesMembers cs rest := by
  induction fuel generalizing s cs with
  | zero => cases hread
  | succ fuel ih =>
    obtain ⟨_, -, body, key, afterKey, value, hopen, hbody, hcolon⟩ := members_eq_ok hread
    rw [members_eq hopen hbody hcolon] at hread
    obtain ⟨⟨s', after⟩, hmember, honward⟩ := Outcome.bind_eq_ok_iff.mp hread
    have hvalue := h.member _ s hmember
    have hskip := skipString_of_stringBody hbody
    simp only [onward] at honward
    split at honward
    · rename_i hclose
      obtain ⟨-, rfl⟩ := Prod.mk.inj (Except.ok.inj honward)
      exact passesMembers_last hopen hskip hcolon hvalue hclose
    · rename_i hcomma
      exact passesMembers_cons hopen hskip hcolon hvalue hcomma (ih honward)
    · cases honward

theorem passesItems {gs : List (Member σ)} {out : List Char} (hgs : gs ⊆ fields) (hne : gs ≠ [])
    (hread : positions gs s cs = .ok (t, rest)) (hclose : skipGap rest = ']' :: out) :
    PassesItems cs out := by
  induction gs generalizing s cs with
  | nil => exact absurd rfl hne
  | cons f gs ih =>
    unfold positions at hread
    split at hread
    · cases hread
    · rename_i s' after hf
      have hf := (h.settles f (hgs List.mem_cons_self) _ _ _ _ hf).1
      have hlast : ∀ tail, skipGap after = tail → skipGap tail = ']' :: out →
          PassesItems cs out := by
        rintro _ rfl hout
        rw [skipGap_skipGap] at hout
        exact passesItems_last hf hout
      split at hread
      · rename_i hafter
        obtain ⟨-, rfl⟩ := Prod.mk.inj (Except.ok.inj hread)
        exact hlast _ rfl hclose
      · rename_i hafter
        obtain ⟨-, rfl⟩ := Prod.mk.inj (Except.ok.inj hread)
        exact hlast _ hafter hclose
      · rename_i hgs' hcomma
        split at hread
        · cases hread
        · apply passesItems_cons hf hcomma
          rw [← passesItems_skipGap_iff]
          exact ih (fun g hg => hgs (List.mem_cons_of_mem f hg)) hgs' hread
      · cases hread

theorem passes_object {start : σ} {finish : σ → Option α} {a : α} {after : List Char}
    (hopen : skipGap cs = '\x7b' :: after)
    (hread : Json.record fields start finish cs = .ok (a, rest)) : Passes cs rest := by
  by_cases hclose : ∃ ds, skipGap after = '\x7d' :: ds
  · obtain ⟨ds, hclose⟩ := hclose
    rw [record_empty hopen hclose] at hread
    obtain rfl := finished_eq_ok hread
    exact passes_emptyObject hopen hclose
  · have hmember := not_exists.mp hclose
    rw [record_members hopen hmember] at hread
    obtain ⟨y, hmembers, hdone⟩ := Outcome.bind_eq_ok_iff.mp hread
    obtain rfl := finished_eq_ok hdone
    exact Json.passes_object hopen hmember (h.passesMembers hmembers)

theorem passes_array {start : σ} {finish : σ → Option α} {a : α} {after : List Char}
    (hopen : skipGap cs = '[' :: after)
    (hread : Json.record fields start finish cs = .ok (a, rest)) : Passes cs rest := by
  simp only [Json.record, hopen] at hread
  split at hread
  · cases hread
  · rename_i s after' hitems
    split at hread
    · cases hread
    · split at hread
      · rename_i hend
        obtain ⟨-, rfl⟩ := Prod.mk.inj (Except.ok.inj hread)
        split at hitems
        · rename_i hclose
          obtain ⟨-, rfl⟩ := Prod.mk.inj (Except.ok.inj hitems)
          obtain ⟨-, rfl⟩ := List.cons.inj hend
          exact passes_emptyArray hopen hclose
        · rename_i hclose
          have hpasses := h.passesItems (List.Subset.refl fields) h.nonempty hitems hend
          exact Json.passes_array hopen hclose (passesItems_skipGap_iff.mp hpasses)
      · cases hread

theorem record (start : σ) (finish : σ → Option α) : Consumes (record fields start finish) := by
  intro cs a rest hread
  have hopen : (∃ after, skipGap cs = '\x7b' :: after) ∨ ∃ after, skipGap cs = '[' :: after := by
    unfold Json.record at hread
    split at hread
    · rename_i hopen
      exact .inl ⟨_, hopen⟩
    · rename_i hopen
      exact .inr ⟨_, hopen⟩
    · cases hread
  obtain ⟨after, hopen⟩ | ⟨after, hopen⟩ := hopen
  · exact h.passes_object hopen hread
  · exact h.passes_array hopen hread

end Lawful

/-! ### No field is read twice -/

/-- Of a field that has been seen there is no member, and of any other at most one, whose value it
reads. -/
def Once (f : Member σ) (s : σ) (ms : List Named) : Prop :=
  (ms.map Named.name).count f.key ≤ (if f.seen s then 0 else 1) ∧
    ∀ m ∈ ms, m.name = f.key → ∃ s', Accepts (f.read s') m.value.text

theorem Once.cons {f : Member σ} {m : Named} {ms : List Named} (h : Once f s' ms)
    (hkeep : f.seen s → f.seen s')
    (hname : m.name = f.key → f.seen s = false ∧ f.seen s' ∧ Accepts (f.read s) m.value.text) :
    Once f s (m :: ms) := by
  obtain ⟨hcount, hread⟩ := h
  by_cases heq : m.name = f.key
  · obtain ⟨hunseen, hseen, haccepts⟩ := hname heq
    simp only [hseen, if_true, Nat.le_zero] at hcount
    refine ⟨?_, List.forall_mem_cons.mpr ⟨fun _ => ⟨s, haccepts⟩, hread⟩⟩
    simp [heq, hunseen, hcount]
  · refine ⟨?_, List.forall_mem_cons.mpr ⟨fun h => absurd h heq, hread⟩⟩
    rw [List.map_cons, List.count_cons_of_ne heq]
    refine hcount.trans ?_
    split_ifs with hseen' hseen hseen
    · exact le_rfl
    · exact Nat.zero_le 1
    · exact absurd (hkeep hseen) hseen'
    · exact le_rfl

namespace Lawful
variable (h : Lawful fields)
include h

theorem once_of_member {m : Named} {ms : List Named} {after : List Char}
    (hread : Json.member fields m.name s (m.value.write ++ rest) = .ok (s', after))
    (hrest : Closes rest) {f : Member σ} (hf : f ∈ fields) (honce : Once f s' ms) :
    Once f s (m :: ms) := by
  unfold Json.member at hread
  split at hread
  · rename_i hnone
    obtain ⟨_, _, heq⟩ := Outcome.bind_eq_ok_iff.mp hread
    obtain ⟨rfl, -⟩ := Prod.mk.inj (Except.ok.inj heq)
    refine honce.cons id fun hname => ?_
    exact absurd (by simp [hname]) (List.find?_eq_none.mp hnone f hf)
  · rename_i g hfind
    obtain ⟨hg, hkey⟩ := mem_of_find? hfind
    split at hread
    · cases hread
    · -- the field `g` was not seen before the member, and is seen from then on
      rename_i hseen
      obtain ⟨-, hseen', hkeep⟩ := h.settles g hg _ _ _ _ hread
      refine honce.cons (hkeep f hf) fun hname => ?_
      obtain rfl : g = f := by
        rw [hname, find?_eq_some h.nodup hf] at hfind
        exact (Option.some.inj hfind).symm
      exact ⟨by simpa using hseen, hseen', accepts_of_write hrest hread⟩

/-- One member that is read, and what is read after it. -/
theorem exists_of_members {m : Named} {ms : List Named} {fuel : Nat} {x : σ × List Char}
    (hvalue : IsValue m.value.text) (hrest : Closes rest)
    (hread : members fields fuel s (m.write ++ rest) = .ok x) :
    ∃ n s', (∀ f ∈ fields, Once f s' ms → Once f s (m :: ms)) ∧
      onward fields n s' (m.value.after ++ rest) = .ok x := by
  obtain ⟨n, rfl, -⟩ := members_eq_ok hread
  rw [members_entry] at hread
  obtain ⟨⟨s', after⟩, hmember, honward⟩ := Outcome.bind_eq_ok_iff.mp hread
  obtain rfl := Consumes.rest_eq (h.member m.name s) hvalue hrest hmember
  exact ⟨n, s', fun f hf => h.once_of_member hmember hrest hf, honward⟩

theorem once_of_members {m : Named} {ms : List Named} {fuel : Nat} {x : σ × List Char}
    (hvalues : ∀ m' ∈ m :: ms, IsValue m'.value.text)
    (hread : members fields fuel s (m.write ++ (more ((ms.map Named.toEntry).map Entry.write) ++
      '\x7d' :: rest)) = .ok x) {f : Member σ} (hf : f ∈ fields) : Once f s (m :: ms) := by
  induction ms generalizing m s fuel with
  | nil =>
    obtain ⟨n, s', honce, -⟩ := h.exists_of_members (hvalues m List.mem_cons_self)
      (closes_more (.inr rfl) [] rest) hread
    exact honce f hf (by simp [Once])
  | cons next ms ih =>
    obtain ⟨n, s', honce, honward⟩ := h.exists_of_members (hvalues m List.mem_cons_self)
      (closes_more (.inr rfl) (((next :: ms).map Named.toEntry).map Entry.write) rest) hread
    rw [List.map_cons, List.map_cons, more_cons, List.cons_append, List.append_assoc,
      onward_more m.value.gap_after] at honward
    exact honce f hf (ih (fun m' hm' => hvalues m' (List.mem_cons_of_mem m hm')) honward)

/-- An object is read only if each field has at most one member, whose value it reads. -/
theorem once_of_record {start : σ} {finish : σ → Option α} {ms : List Named}
    (haccepts : Accepts (Json.record fields start finish) cs) (hobject : IsObjectOf ms cs)
    (hvalues : ∀ m ∈ ms, IsValue m.value.text) {f : Member σ} (hf : f ∈ fields) :
    Once f start ms := by
  obtain ⟨gap, rest, x, hgap, -, hread⟩ := haccepts
  obtain ⟨hnil, -⟩ | ⟨hne, rfl⟩ := hobject
  · obtain rfl : ms = [] := by simpa using hnil
    simp [Once]
  · obtain _ | ⟨m, ms⟩ := ms
    · simp at hne
    obtain ⟨fuel, -, hrecord⟩ := record_cons (α := α) hgap m ms rest
    rw [hrecord] at hread
    obtain ⟨y, hmembers, -⟩ := Outcome.bind_eq_ok_iff.mp hread
    exact h.once_of_members hvalues hmembers hf

end Lawful

end
end RetentionJobs.Json
