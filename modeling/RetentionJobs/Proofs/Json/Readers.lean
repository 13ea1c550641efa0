import RetentionJobs.Proofs.Json.Skipping
import RetentionJobs.Proofs.Text.Decimal
/-! Readers of values. A reader that succeeds has taken off just what is passed over as one value,
so that it cannot stop inside of a value or run past its end. -/
namespace RetentionJobs.Json
open RetentionJobs.Text

/-! ### What is passed over -/

/-- With more fuel, the same is passed over. -/
theorem skip_succ (fuel : Nat) :
    (∀ cs rest, skipValue fuel cs = .ok rest → skipValue (fuel + 1) cs = .ok rest) ∧
    (∀ cs rest, skipItems fuel cs = .ok rest → skipItems (fuel + 1) cs = .ok rest) ∧
    ∀ cs rest, skipMembers fuel cs = .ok rest → skipMembers (fuel + 1) cs = .ok rest := by
  -- values, items and members call one another, so all three go through one induction
  induction fuel with
  | zero => simp [skipValue, skipItems, skipMembers]
  | succ fuel ih =>
    obtain ⟨hvalue, hitems, hmembers⟩ := ih
    refine ⟨fun cs rest => ?_, fun cs rest => ?_, fun cs rest => ?_⟩
    · simp only [skipValue]
      split
      · exact id
      · exact id
      · exact id
      · exact id
      · split
        · exact id
        · exact hitems _ _
      · split
        · exact id
        · exact hmembers _ _
      · exact id
    · unfold skipItems
      cases hskip : skipValue fuel cs with
      | error e => simp
      | ok after =>
        simp only [hvalue cs after hskip]
        split
        · exact id
        · exact hitems _ _
        · exact id
    · unfold skipMembers
      split
      · split
        · exact id
        · split
          · exact id
          · rename_i rest' _
            cases hskip : skipValue fuel rest' with
            | error e => simp
            | ok after =>
              simp only [hvalue rest' after hskip]
              split
              · exact id
              · exact hmembers _ _
              · exact id
      · exact id

/-- A value in front of `rest` can be passed over. -/
def Passes (cs rest : List Char) : Prop := ∃ fuel, skipValue fuel cs = .ok rest

/-- The items of an array and its closing bracket can be passed over. -/
def PassesItems (cs rest : List Char) : Prop := ∃ fuel, skipItems fuel cs = .ok rest

/-- The members of an object and its closing brace can be passed over. -/
def PassesMembers (cs rest : List Char) : Prop := ∃ fuel, skipMembers fuel cs = .ok rest

section
variable {cs after next rest : List Char}

theorem skipValue_mono {fuel fuel' : Nat} (hle : fuel ≤ fuel') (h : skipValue fuel cs = .ok rest) :
    skipValue fuel' cs = .ok rest := by
  induction hle with
  | refl => exact h
  | step _ ih => exact (skip_succ _).1 cs rest ih

theorem skipItems_mono {fuel fuel' : Nat} (hle : fuel ≤ fuel') (h : skipItems fuel cs = .ok rest) :
    skipItems fuel' cs = .ok rest := by
  induction hle with
  | refl => exact h
  | step _ ih => exact (skip_succ _).2.1 cs rest ih

theorem skipMembers_mono {fuel fuel' : Nat} (hle : fuel ≤ fuel')
    (h : skipMembers fuel cs = .ok rest) : skipMembers fuel' cs = .ok rest := by
  induction hle with
  | refl => exact h
  | step _ ih => exact (skip_succ _).2.2 cs rest ih

/-- There is only one value to pass over. -/
theorem Passes.unique {rest' : List Char} (h : Passes cs rest) (h' : Passes cs rest') :
    rest = rest' := by
  obtain ⟨fuel, h⟩ := h
  obtain ⟨fuel', h'⟩ := h'
  have hmax := skipValue_mono (le_max_left fuel fuel') h
  rw [skipValue_mono (le_max_right fuel fuel') h'] at hmax
  exact (Except.ok.inj hmax).symm

theorem passes_skipGap_iff : Passes (skipGap cs) rest ↔ Passes cs rest := by simp [Passes]

theorem passesItems_skipGap_iff : PassesItems (skipGap cs) rest ↔ PassesItems cs rest := by
  simp [PassesItems]

theorem IsValue.passes (h : IsValue cs) (hrest : Closes rest) : Passes (cs ++ rest) rest :=
  ⟨_, h.skippedBy le_rfl rest hrest⟩

theorem passes_string {body : List Char} (h : skipGap cs = '"' :: body)
    (hbody : skipString body = .ok rest) : Passes cs rest :=
  ⟨1, by simp [skipValue, h, hbody]⟩

theorem passes_null {after : List Char} (h : skipGap cs = 'n' :: after)
    (hword : word ['u', 'l', 'l'] after = .ok ((), rest)) : Passes cs rest :=
  ⟨1, by simp [skipValue, h, hword, Except.map]⟩

theorem passes_emptyArray (h : skipGap cs = '[' :: after) (hafter : skipGap after = ']' :: rest) :
    Passes cs rest := ⟨1, by simp [skipValue, h, hafter]⟩

theorem passes_array (h : skipGap cs = '[' :: after) (hafter : ∀ ds, skipGap after ≠ ']' :: ds)
    (hitems : PassesItems after rest) : Passes cs rest := by
  obtain ⟨fuel, hitems⟩ := hitems
  rw [← skipItems_skipGap] at hitems
  exact ⟨fuel + 1, by simp [skipValue, h, hitems]⟩

theorem passesItems_last (h : Passes cs after) (hafter : skipGap after = ']' :: rest) :
    PassesItems cs rest := by
  obtain ⟨fuel, h⟩ := h
  exact ⟨fuel + 1, skipItems_last h hafter⟩

theorem passesItems_cons (h : Passes cs after) (hafter : skipGap after = ',' :: next)
    (hnext : PassesItems next rest) : PassesItems cs rest := by
  obtain ⟨fuel, h⟩ := h
  obtain ⟨fuel', hnext⟩ := hnext
  have h := skipValue_mono (le_max_left fuel fuel') h
  have hnext := skipItems_mono (le_max_right fuel fuel') hnext
  exact ⟨max fuel fuel' + 1, (skipItems_cons h hafter).trans hnext⟩

theorem passes_emptyObject (h : skipGap cs = '\x7b' :: after)
    (hafter : skipGap after = '\x7d' :: rest) : Passes cs rest :=
  ⟨1, by simp [skipValue, h, hafter]⟩

theorem passes_object (h : skipGap cs = '\x7b' :: after)
    (hafter : ∀ ds, skipGap after ≠ '\x7d' :: ds) (hmembers : PassesMembers after rest) :
    Passes cs rest := by
  obtain ⟨fuel, hmembers⟩ := hmembers
  rw [← skipMembers_skipGap] at hmembers
  exact ⟨fuel + 1, by simp [skipValue, h, hmembers]⟩

section
variable {body afterKey value : List Char} (hkey : skipGap cs = '"' :: body)
  (hbody : skipString body = .ok afterKey) (hcolon : colon afterKey = .ok value)
  (hvalue : Passes value after)
include hkey hbody hcolon hvalue

theorem passesMembers_last (hafter : skipGap after = '\x7d' :: rest) : PassesMembers cs rest := by
  obtain ⟨fuel, hvalue⟩ := hvalue
  exact ⟨fuel + 1, skipMembers_last hkey hbody hcolon hvalue hafter⟩

theorem passesMembers_cons (hafter : skipGap after = ',' :: next)
    (hnext : PassesMembers next rest) : PassesMembers cs rest := by
  obtain ⟨fuel, hvalue⟩ := hvalue
  obtain ⟨fuel', hnext⟩ := hnext
  have hvalue := skipValue_mono (le_max_left fuel fuel') hvalue
  have hnext := skipMembers_mono (le_max_right fuel fuel') hnext
  exact ⟨max fuel fuel' + 1, (skipMembers_cons hkey hbody hcolon hvalue hafter).trans hnext⟩

end
end

/-! ### Readers that take one value -/

/-- What `r` takes off a text is one value. -/
def Consumes {α : Type} (r : Reader α) : Prop :=
  ∀ {cs a rest}, r cs = .ok (a, rest) → Passes cs rest

section
variable {α : Type} {r : Reader α}

theorem consumes_text : Consumes text := by
  intro cs s rest h
  unfold text at h
  split at h
  · rename_i body hopen
    split at h
    · rename_i hbody
      obtain ⟨-, rfl⟩ := Prod.mk.inj (Except.ok.inj h)
      exact passes_string hopen (skipString_of_stringBody hbody)
    · cases h
  · cases h

theorem consumes_integer : Consumes integer := by
  intro cs n rest h
  simp only [integer] at h
  split at h
  · rename_i c after hopen
    split at h
    · rename_i hc
      split at h
      · cases h
      · rename_i numeral hnumeral
        split at h
        · obtain ⟨-, rfl⟩ := Prod.mk.inj (Except.ok.inj h)
          refine passes_skipGap_iff.mp ⟨1, ?_⟩
          rw [hopen] at hnumeral ⊢
          rw [skipValue_numeral hc, hnumeral]
          rfl
        · cases h
    · cases h
  · cases h

theorem Consumes.nullable (hr : Consumes r) : Consumes (nullable r) := by
  intro cs a rest h
  unfold Json.nullable at h
  split at h
  · rename_i after hopen
    split at h
    · rename_i hword
      obtain ⟨-, rfl⟩ := Prod.mk.inj (Except.ok.inj h)
      exact passes_null hopen hword
    · cases h
  · split at h
    · rename_i hread
      obtain ⟨-, rfl⟩ := Prod.mk.inj (Except.ok.inj h)
      exact passes_skipGap_iff.mp (hr hread)
    · cases h

theorem Consumes.listItems (hr : Consumes r) {fuel : Nat} {cs rest : List Char} {as : List α}
    (h : listItems r fuel cs = .ok (as, rest)) : PassesItems cs rest := by
  induction fuel generalizing cs as with
  | zero => cases h
  | succ fuel ih =>
    unfold Json.listItems at h
    split at h
    · cases h
    · rename_i hread
      split at h
      · rename_i hclose
        obtain ⟨-, rfl⟩ := Prod.mk.inj (Except.ok.inj h)
        exact passesItems_last (hr hread) hclose
      · rename_i hcomma
        split at h
        · cases h
        · split at h
          · cases h
          · rename_i hnext
            obtain ⟨-, rfl⟩ := Prod.mk.inj (Except.ok.inj h)
            exact passesItems_cons (hr hread) hcomma (passesItems_skipGap_iff.mp (ih hnext))
      · cases h

theorem Consumes.list (hr : Consumes r) : Consumes (list r) := by
  intro cs as rest h
  unfold Json.list at h
  split at h
  · rename_i after hopen
    split at h
    · rename_i hclose
      obtain ⟨-, rfl⟩ := Prod.mk.inj (Except.ok.inj h)
      exact passes_emptyArray hopen hclose
    · rename_i hclose
      exact passes_array hopen hclose (passesItems_skipGap_iff.mp (hr.listItems h))
  · cases h

end

/-! ### Texts that are read -/

/-- The text is read as `a` where something follows that closes it. -/
structure ReadsAs {α : Type} (r : Reader α) (a : α) (cs : List Char) : Prop where
  starts : StartsValue cs
  read : ∀ gap rest, IsGap gap → Closes rest → r (gap ++ (cs ++ rest)) = .ok (a, rest)

/-- The text is read in some place where something follows that closes it. -/
def Accepts {α : Type} (r : Reader α) (cs : List Char) : Prop :=
  ∃ gap rest x, IsGap gap ∧ Closes rest ∧ r (gap ++ (cs ++ rest)) = .ok x

section
variable {α : Type} {r : Reader α} {a : α} {cs gap rest : List Char}

theorem ReadsAs.write {p : Padded} (h : ReadsAs r a p.text) (hrest : Closes rest) :
    r (p.write ++ rest) = .ok (a, p.after ++ rest) := by
  rw [Padded.write, List.append_assoc, List.append_assoc]
  exact h.read p.before (p.after ++ rest) p.gap_before (hrest.append p.gap_after)

theorem accepts_of_write {p : Padded} {x : α × List Char} (hrest : Closes rest)
    (h : r (p.write ++ rest) = .ok x) : Accepts r p.text := by
  rw [Padded.write, List.append_assoc, List.append_assoc] at h
  exact ⟨p.before, p.after ++ rest, x, p.gap_before, hrest.append p.gap_after, h⟩

theorem readsAs_text {s : String} (h : IsText s cs) : ReadsAs text s cs := by
  refine ⟨(IsValue.string h.isLooseText).startsValue, fun gap rest hgap _ => ?_⟩
  obtain ⟨body, hbody, rfl⟩ := h
  have hopen : skipGap (gap ++ ('"' :: (body ++ ['"']) ++ rest)) =
      '"' :: (body ++ '"' :: rest) := by
    rw [skipGap_append hgap]
    simp [skipGap, isGap]
  rw [text, hopen]
  simp only [stringBody_of_isBody hbody, String.ofList_toList]

theorem isWhole_digits (n : Nat) : IsWhole (digits n) :=
  ⟨⟨digits_ne_nil n, fun _ => isDigit_of_mem_digits⟩, fun _ => eq_nil_of_digits⟩

theorem numeral_whole {sign whole : List Char} (hsign : sign = [] ∨ sign = ['-'])
    (hwhole : IsWhole whole) (hrest : Closes rest) :
    numeral (sign ++ (whole ++ rest)) = .ok (⟨sign ≠ [], whole, none, none⟩, rest) := by
  rw [numeral_eq hsign hwhole hrest.not_isDigit, fraction_of_head fun hdot => (hrest.ne hdot).1 rfl]
  simp only [Outcome.ok_bind, exponent_of_head fun c hc => (hrest.ne hc).2]
  rfl

/-- A number in decimal is read as itself. -/
theorem numeral_decimal (n : Int) (hrest : Closes rest) :
    ∃ m, numeral (decimal n ++ rest) = .ok (m, rest) ∧ (InWord n → m.word? = some n) := by
  cases n with
  | ofNat n =>
    refine ⟨⟨false, digits n, none, none⟩,
      numeral_whole (.inl rfl) (isWhole_digits n) hrest, fun hn => ?_⟩
    simpa [Numeral.word?, digitsValue_digits] using hn
  | negSucc n =>
    refine ⟨⟨true, digits (n + 1), none, none⟩,
      numeral_whole (.inr rfl) (isWhole_digits (n + 1)) hrest, fun hn => ?_⟩
    have hvalue : -((n : Int) + 1) = Int.negSucc n := by omega
    have hpos : (n : Int) + 1 ≠ 0 := by omega
    simpa [Numeral.word?, digitsValue_digits, hvalue, hpos] using hn

theorem isNumber_decimal (n : Int) : IsNumber (decimal n) := by
  cases n with
  | ofNat n =>
    exact ⟨[], digits n, [], [], .inl rfl, isWhole_digits n, .inl rfl, .inl rfl, by simp [decimal]⟩
  | negSucc n =>
    exact ⟨['-'], digits (n + 1), [], [], .inr rfl, isWhole_digits (n + 1), .inl rfl, .inl rfl,
      by simp [decimal]⟩

theorem readsAs_integer {n : Int} (h : InWord n) : ReadsAs integer n (decimal n) := by
  have hstart := (IsValue.number (isNumber_decimal n)).startsValue
  refine ⟨hstart, fun gap rest hgap hrest => ?_⟩
  obtain ⟨m, hm, hword⟩ := numeral_decimal n hrest
  obtain ⟨c, after, hopen, hc⟩ := (isNumber_decimal n).head
  rw [hopen, List.cons_append] at hm
  simp only [integer, hstart.skipGap_gap hgap]
  rw [hopen, List.cons_append]
  simp [hc, hm, hword h]

theorem readsAs_null : ReadsAs (nullable r) none ['n', 'u', 'l', 'l'] := by
  have hstart : StartsValue ['n', 'u', 'l', 'l'] := (IsValue.literal (by decide)).startsValue
  refine ⟨hstart, fun gap rest hgap _ => ?_⟩
  rw [nullable, hstart.skipGap_gap hgap]
  rfl

/-- What is not null is read as by `r`. -/
theorem nullable_of_head (hstart : StartsValue cs) (hnull : 'n' ∉ cs.head?) (hgap : IsGap gap)
    (rest : List Char) :
    nullable r (gap ++ (cs ++ rest)) = (r (cs ++ rest)).map (fun (a, rest) => (some a, rest)) := by
  obtain ⟨c, hc, -⟩ := id hstart
  obtain ⟨ds, rfl⟩ := List.head?_eq_some_iff.mp hc
  have hc : c ≠ 'n' := by
    rintro rfl
    exact hnull rfl
  rw [nullable, hstart.skipGap_gap hgap]
  split
  · simp_all
  · cases r (c :: ds ++ rest) <;> rfl

theorem ReadsAs.nullable (h : ReadsAs r a cs) (hnull : 'n' ∉ cs.head?) :
    ReadsAs (nullable r) (some a) cs := by
  refine ⟨h.starts, fun gap rest hgap hrest => ?_⟩
  have hread := h.read [] rest (by simp [IsGap]) hrest
  rw [nullable_of_head h.starts hnull hgap, ← List.nil_append (cs ++ rest), hread]
  rfl

theorem readsAs_nullable {P : α → List Char → Prop} {o : Option α} (h : IsNullable P o cs)
    (hr : ∀ a ∈ o, P a cs → ReadsAs r a cs ∧ 'n' ∉ cs.head?) : ReadsAs (Json.nullable r) o cs := by
  cases o with
  | none =>
    obtain rfl : cs = ['n', 'u', 'l', 'l'] := h
    exact readsAs_null
  | some a =>
    obtain ⟨hread, hnull⟩ := hr a rfl h
    exact hread.nullable hnull

theorem Accepts.of_nullable (h : Accepts (nullable r) cs) (hstart : StartsValue cs)
    (hnull : 'n' ∉ cs.head?) : Accepts r cs := by
  obtain ⟨gap, rest, x, hgap, hrest, hread⟩ := h
  rw [nullable_of_head hstart hnull hgap] at hread
  cases hr : r (cs ++ rest) with
  | error e => simp [hr, Except.map] at hread
  | ok y => exact ⟨[], rest, y, by simp [IsGap], hrest, hr⟩

end

/-! ### Lists -/

section
variable {α : Type} {r : Reader α} {a : α} {cs rest : List Char}

theorem listItems_last {item : Padded} {fuel : Nat}
    (h : r (item.text ++ (item.after ++ ']' :: rest)) = .ok (a, item.after ++ ']' :: rest)) :
    listItems r (fuel + 1) (item.text ++ (item.after ++ ']' :: rest)) = .ok ([a], rest) := by
  have hclose : skipGap (item.after ++ ']' :: rest) = ']' :: rest :=
    skipGap_append item.gap_after _
  simp [listItems, h, hclose]

theorem listItems_more {item next : Padded} (parts : List (List Char)) (fuel : Nat)
    (hnext : StartsValue next.text)
    (h : r (item.text ++ (item.after ++ (more (next.write :: parts) ++ ']' :: rest))) =
      .ok (a, item.after ++ (more (next.write :: parts) ++ ']' :: rest))) :
    listItems r (fuel + 1)
        (item.text ++ (item.after ++ (more (next.write :: parts) ++ ']' :: rest))) =
      (listItems r fuel (next.text ++ (next.after ++ (more parts ++ ']' :: rest)))).map
        (fun (as, rest) => (a :: as, rest)) := by
  have hcomma := skipGap_more (.inl rfl) item.gap_after (next.write :: parts) rest
  have hskip := hnext.skipGap_write (more parts ++ ']' :: rest)
  obtain ⟨c, hc, -, hbracket, -⟩ := hnext
  obtain ⟨ds, hds⟩ := List.head?_eq_some_iff.mp hc
  rw [more_cons, List.cons_append, List.append_assoc] at h hcomma ⊢
  rw [hds, List.cons_append] at hskip ⊢
  simp only [listItems, h, hcomma, hskip]
  split
  · simp_all
  · split <;> simp_all [Except.map]

/-- What `r` reads in front of a gap. -/
theorem ReadsAs.read_after {p : Padded} (h : ReadsAs r a p.text) (hrest : Closes rest) :
    r (p.text ++ (p.after ++ rest)) = .ok (a, p.after ++ rest) :=
  h.read [] (p.after ++ rest) (by simp [IsGap]) (hrest.append p.gap_after)

theorem listItems_write {items : List Padded} {item : Padded} {as : List α} {fuel : Nat}
    (hitem : ReadsAs r a item.text) (h : List.Forall₂ (fun a i => ReadsAs r a i.text) as items)
    (hfuel : items.length < fuel) :
    listItems r fuel (item.text ++ (item.after ++ (more (items.map Padded.write) ++ ']' :: rest))) =
      .ok (a :: as, rest) := by
  induction h generalizing a item fuel with
  | nil =>
    obtain _ | fuel := fuel
    · simp at hfuel
    exact listItems_last (hitem.read_after (closes_more (.inl rfl) [] rest))
  | @cons _ next _ items hnext _ ih =>
    obtain _ | fuel := fuel
    · simp at hfuel
    have hread := hitem.read_after
      (closes_more (.inl rfl) (next.write :: items.map Padded.write) rest)
    rw [List.map_cons, listItems_more _ fuel hnext.starts hread, ih hnext (by simpa using hfuel)]
    rfl

/-- The items of an array are read from the first of them on. -/
theorem list_cons {gap : List Char} {item : Padded} (items : List Padded) (rest : List Char)
    (hitem : StartsValue item.text) (hgap : IsGap gap) :
    ∃ fuel, items.length < fuel ∧
      list r (gap ++ ('[' :: (join [','] ((item :: items).map Padded.write) ++ [']']) ++ rest)) =
        listItems r fuel
          (item.text ++ (item.after ++ (more (items.map Padded.write) ++ ']' :: rest))) := by
  have hopen : ∀ cs, skipGap (gap ++ '[' :: cs) = '[' :: cs := fun cs => skipGap_append hgap _
  have hskip := hitem.skipGap_write (more (items.map Padded.write) ++ ']' :: rest)
  obtain ⟨c, hc, -, hbracket, -⟩ := hitem
  obtain ⟨ds, hds⟩ := List.head?_eq_some_iff.mp hc
  refine ⟨(item.text ++ (item.after ++ (more (items.map Padded.write) ++ ']' :: rest))).length + 1,
    ?_, ?_⟩
  · have hlen := length_le_more (items.map Padded.write)
    simp only [List.length_map, List.length_append, List.length_cons] at hlen ⊢
    omega
  · rw [Json.list, List.map_cons, join_cons_more, List.cons_append, hopen, List.append_assoc,
      List.append_assoc, List.singleton_append]
    simp only [hskip, hds, List.cons_append]
    split
    · simp_all
    · rfl

/-- The readings of the items make the reading of the array. -/
theorem ReadsAs.list {items : List Padded} {as : List α} (harray : IsArray items cs)
    (h : List.Forall₂ (fun a i => ReadsAs r a i.text) as items) : ReadsAs (list r) as cs := by
  have hstart : StartsValue cs := harray.startsValue (by decide)
  refine ⟨hstart, fun gap rest hgap hrest => ?_⟩
  obtain ⟨hnil, gap', hgap', rfl⟩ | ⟨hne, rfl⟩ := harray
  · obtain rfl : items = [] := by simpa using hnil
    cases h
    have hclose : skipGap (gap' ++ ']' :: rest) = ']' :: rest := skipGap_append hgap' _
    rw [Json.list, hstart.skipGap_gap hgap]
    simp [hclose]
  · cases h with
    | nil => simp at hne
    | @cons a item as items hitem hitems =>
      obtain ⟨fuel, hfuel, hlist⟩ := list_cons (r := r) items rest hitem.starts hgap
      rw [hlist, listItems_write hitem hitems hfuel]

theorem readsAs_list {P : α → List Char → Prop} {as : List α} (h : IsListOf P as cs)
    (hr : ∀ a ∈ as, ∀ cs, P a cs → ReadsAs r a cs) : ReadsAs (Json.list r) as cs := by
  obtain ⟨items, harray, hitems⟩ := h
  apply ReadsAs.list harray
  rw [List.forall₂_iff_zip] at hitems ⊢
  exact ⟨hitems.1, fun hmem => hr _ (List.of_mem_zip hmem).1 _ (hitems.2 hmem)⟩

theorem exists_of_listItems {fuel : Nat} {x : List α × List Char}
    (h : listItems r fuel cs = .ok x) : ∃ n, fuel = n + 1 ∧ ∃ a rest, r cs = .ok (a, rest) := by
  obtain _ | fuel := fuel
  · cases h
  · cases hread : r cs with
    | error e => simp [listItems, hread] at h
    | ok y => exact ⟨fuel, rfl, y.1, y.2, rfl⟩

section
variable (hr : Consumes r)
include hr

/-- A reader that takes one value off ends where the value does. -/
theorem Consumes.rest_eq {p : Padded} {rest' : List Char} (hvalue : IsValue p.text)
    (hrest : Closes rest) (h : r (p.write ++ rest) = .ok (a, rest')) : rest' = p.after ++ rest := by
  have hpasses := passes_skipGap_iff.mpr (hr h)
  rw [hvalue.startsValue.skipGap_write] at hpasses
  exact hpasses.unique (hvalue.passes (hrest.append p.gap_after))

theorem Consumes.rest_eq_after {p : Padded} {rest' : List Char} (hvalue : IsValue p.text)
    (hrest : Closes rest) (h : r (p.text ++ (p.after ++ rest)) = .ok (a, rest')) :
    rest' = p.after ++ rest :=
  (hr h).unique (hvalue.passes (hrest.append p.gap_after))

theorem accepts_of_listItems {items : List Padded} {item : Padded} {fuel : Nat}
    {x : List α × List Char} (hvalues : ∀ i ∈ item :: items, IsValue i.text)
    (h : listItems r fuel (item.text ++ (item.after ++ (more (items.map Padded.write) ++
      ']' :: rest))) = .ok x) : ∀ i ∈ item :: items, Accepts r i.text := by
  induction items generalizing item fuel x with
  | nil =>
    obtain ⟨fuel, rfl, a, rest', hread⟩ := exists_of_listItems h
    have hclose := closes_more (.inl rfl) [] rest
    simpa using ⟨[], _, _, by simp [IsGap], hclose.append item.gap_after, hread⟩
  | cons next items ih =>
    obtain ⟨fuel, rfl, a, rest', hread⟩ := exists_of_listItems h
    have hclose := closes_more (.inl rfl) (next.write :: items.map Padded.write) rest
    have hitem : Accepts r item.text :=
      ⟨[], _, _, by simp [IsGap], hclose.append item.gap_after, hread⟩
    -- only a reader that takes the whole value leaves the comma in front of the next item
    obtain rfl := hr.rest_eq_after (hvalues item List.mem_cons_self) hclose hread
    obtain ⟨-, hvalues⟩ := List.forall_mem_cons.mp hvalues
    have hnext := (hvalues next List.mem_cons_self).startsValue
    rw [List.map_cons, listItems_more _ fuel hnext hread] at h
    cases hitems : listItems r fuel (next.text ++ (next.after ++
        (more (items.map Padded.write) ++ ']' :: rest))) with
    | error e => simp [hitems, Except.map] at h
    | ok y => exact List.forall_mem_cons.mpr ⟨hitem, ih hvalues hitems⟩

/-- An array is read only if each of its items is. -/
theorem Accepts.of_list {items : List Padded} (h : Accepts (list r) cs) (harray : IsArray items cs)
    (hvalues : ∀ i ∈ items, IsValue i.text) : ∀ i ∈ items, Accepts r i.text := by
  obtain ⟨gap, rest, x, hgap, -, hread⟩ := h
  obtain ⟨hnil, -⟩ | ⟨hne, rfl⟩ := harray
  · obtain rfl : items = [] := by simpa using hnil
    simp
  · obtain _ | ⟨item, items⟩ := items
    · simp at hne
    obtain ⟨fuel, -, hlist⟩ :=
      list_cons (r := r) items rest (hvalues item List.mem_cons_self).startsValue hgap
    rw [hlist] at hread
    exact accepts_of_listItems hr hvalues hread

end

end
end RetentionJobs.Json
