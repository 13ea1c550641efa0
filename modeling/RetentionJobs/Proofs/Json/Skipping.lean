import Mathlib.Data.List.DropRight
import RetentionJobs.Proofs.Json.Strings
import RetentionJobs.Proofs.Outcome
import RetentionJobs.Proofs.Text.Words
/-! Passing over values. Every text of a value is passed over to its end when something follows that
closes it, whatever its depth. -/
namespace RetentionJobs.Json
open RetentionJobs.Text

/-! ### Gaps -/

section
variable {gap cs rest : List Char}

theorem skipGap_append (h : IsGap gap) (cs : List Char) : skipGap (gap ++ cs) = skipGap cs := by
  unfold skipGap
  rw [List.dropWhile_append_of_pos h]

@[simp] theorem skipGap_skipGap (cs : List Char) : skipGap (skipGap cs) = skipGap cs :=
  List.dropWhile_idempotent isGap cs

theorem Closes.append (hgap : IsGap gap) (h : Closes rest) : Closes (gap ++ rest) := by
  cases gap with
  | nil => exact h
  | cons c gap =>
    intro d hd
    obtain rfl : c = d := by simpa using hd
    exact .inl (hgap c List.mem_cons_self)

theorem Closes.not_isDigit (h : Closes rest) : ∀ c ∈ rest.head?, c.isDigit = false := by
  intro c hc
  by_contra hdigit
  have hdigit : c.isDigit := (Bool.not_eq_false _).mp hdigit
  obtain hgap | rfl | rfl | rfl := h c hc
  · simp only [isGap, Bool.or_eq_true, beq_iff_eq] at hgap
    obtain ((rfl | rfl) | rfl) | rfl := hgap <;> simp at hdigit
  all_goals simp at hdigit

theorem Closes.ne (h : Closes rest) {c : Char} (hc : c ∈ rest.head?) :
    c ≠ '.' ∧ c ≠ 'e' ∧ c ≠ 'E' := by
  obtain hgap | rfl | rfl | rfl := h c hc
  · simp only [isGap, Bool.or_eq_true, beq_iff_eq] at hgap
    obtain ((rfl | rfl) | rfl) | rfl := hgap <;> decide
  all_goals decide

end

/-! ### Numbers -/

section
variable {cs after rest sign whole : List Char}

theorem fraction_of_head (h : '.' ∉ cs.head?) : fraction cs = .ok (none, cs) := by
  unfold fraction
  split
  · simp at h
  · rfl

theorem fraction_of_isFraction (h : IsFraction cs)
    (hafter : ∀ c ∈ after.head?, c.isDigit = false ∧ c ≠ '.') :
    ∃ f, fraction (cs ++ after) = .ok (f, after) := by
  obtain rfl | ⟨ds, hds, rfl⟩ := h
  · exact ⟨none, fraction_of_head fun hdot => (hafter '.' hdot).2 rfl⟩
  · obtain ⟨htake, hdrop⟩ := cut_run hds.2 fun c hc => (hafter c hc).1
    obtain ⟨d, ds, rfl⟩ := List.exists_cons_of_ne_nil hds.1
    exact ⟨some (d :: ds), by simp only [List.cons_append, fraction] at *; simp [htake, hdrop]⟩

theorem exponent_of_head (h : ∀ c ∈ cs.head?, c ≠ 'e' ∧ c ≠ 'E') :
    exponent cs = .ok (none, cs) := by
  cases cs with
  | nil => rfl
  | cons c cs =>
    have hc : ¬ (c = 'e' ∨ c = 'E') := not_or.mpr (h c rfl)
    unfold exponent
    exact if_neg hc

theorem exponent_of_isExponent (h : IsExponent cs) (hrest : Closes rest) :
    ∃ e, exponent (cs ++ rest) = .ok (e, rest) := by
  obtain rfl | ⟨e, sign, ds, he, hsign, hds, rfl⟩ := h
  · exact ⟨none, exponent_of_head fun c hc => (hrest.ne hc).2⟩
  · obtain ⟨htake, hdrop⟩ := cut_run hds.2 hrest.not_isDigit
    obtain ⟨d, ds, rfl⟩ := List.exists_cons_of_ne_nil hds.1
    have hd := hds.2 d List.mem_cons_self
    have hminus : d ≠ '-' := by rintro rfl; simp at hd
    have hplus : d ≠ '+' := by rintro rfl; simp at hd
    rw [List.cons_append] at htake hdrop
    obtain rfl | rfl | rfl := hsign <;>
      simp [exponent, he, htake, hdrop, hminus, hplus]

/-- A number, up to its fraction. -/
theorem numeral_eq (hsign : sign = [] ∨ sign = ['-']) (hwhole : IsWhole whole)
    (hafter : ∀ c ∈ after.head?, c.isDigit = false) :
    numeral (sign ++ (whole ++ after)) = (do
      let (f, cs) ← fraction after
      let (e, cs) ← exponent cs
      return (⟨sign ≠ [], whole, f, e⟩, cs)) := by
  obtain ⟨htake, hdrop⟩ := cut_run hwhole.1.2 hafter
  obtain ⟨d, ds, rfl⟩ := List.exists_cons_of_ne_nil hwhole.1.1
  have hd := hwhole.1.2 d List.mem_cons_self
  have hminus : d ≠ '-' := by rintro rfl; simp at hd
  have hzero : ∀ c cs, d :: ds ≠ '0' :: c :: cs := by
    intro c cs heq
    simpa using hwhole.2 (c :: cs) ((List.cons.inj heq).1 ▸ heq)
  rw [List.cons_append] at htake hdrop
  obtain rfl | rfl := hsign <;> simp [numeral, hminus, htake, hdrop]

theorem numeral_of_isNumber (h : IsNumber cs) (hrest : Closes rest) :
    ∃ n, numeral (cs ++ rest) = .ok (n, rest) := by
  obtain ⟨sign, whole, f, e, hsign, hwhole, hf, he, rfl⟩ := h
  have hexponent : ∀ c ∈ (e ++ rest).head?, c.isDigit = false ∧ c ≠ '.' := by
    intro c hc
    obtain rfl | ⟨mark, _, _, rfl | rfl, _, _, rfl⟩ := he
    · exact ⟨hrest.not_isDigit c hc, (hrest.ne hc).1⟩
    · obtain rfl : 'e' = c := by simpa using hc
      decide
    · obtain rfl : 'E' = c := by simpa using hc
      decide
  have hfraction : ∀ c ∈ (f ++ (e ++ rest)).head?, c.isDigit = false := by
    intro c hc
    obtain rfl | ⟨ds, _, rfl⟩ := hf
    · exact (hexponent c hc).1
    · obtain rfl : '.' = c := by simpa using hc
      decide
  obtain ⟨x, hx⟩ := fraction_of_isFraction hf hexponent
  obtain ⟨y, hy⟩ := exponent_of_isExponent he hrest
  refine ⟨⟨sign ≠ [], whole, x, y⟩, ?_⟩
  simp only [List.append_assoc]
  rw [numeral_eq hsign hwhole hfraction, hx]
  simp only [Outcome.ok_bind, hy]
  rfl

/-- A number begins with a minus sign or a digit. -/
theorem IsNumber.head (h : IsNumber cs) : ∃ c after, cs = c :: after ∧ (c = '-' ∨ c.isDigit) := by
  obtain ⟨sign, whole, f, e, rfl | rfl, hwhole, -, -, rfl⟩ := h
  · obtain ⟨d, ds, rfl⟩ := List.exists_cons_of_ne_nil hwhole.1.1
    exact ⟨d, _, rfl, .inr (hwhole.1.2 d List.mem_cons_self)⟩
  · exact ⟨'-', _, rfl, .inl rfl⟩

end

/-! ### Values -/

section
variable {cs rest : List Char} {fuel : Nat}

/-- No value begins with a gap or a closing bracket. -/
def StartsValue (cs : List Char) : Prop :=
  ∃ c ∈ cs.head?, isGap c = false ∧ c ≠ ']' ∧ c ≠ '\x7d'

theorem startsValue_numeral {c : Char} (h : c = '-' ∨ c.isDigit) (cs : List Char) :
    StartsValue (c :: cs) := by
  obtain rfl | hdigit := h
  · exact ⟨'-', rfl, by decide⟩
  · refine ⟨c, rfl, ?_, ?_, ?_⟩
    · by_contra hgap
      simp only [isGap, Bool.not_eq_false, Bool.or_eq_true, beq_iff_eq] at hgap
      obtain ((rfl | rfl) | rfl) | rfl := hgap <;> simp at hdigit
    all_goals
      rintro rfl
      simp at hdigit

theorem Encloses.cases {opening closing : Char} {parts : List (List Char)}
    (h : Encloses opening closing parts cs) : ∃ after, cs = opening :: after := by
  obtain ⟨_, _, _, rfl⟩ | ⟨_, rfl⟩ := h
  · exact ⟨_, rfl⟩
  · exact ⟨_, rfl⟩

theorem Encloses.startsValue {opening closing : Char} {parts : List (List Char)}
    (h : Encloses opening closing parts cs)
    (hopening : isGap opening = false ∧ opening ≠ ']' ∧ opening ≠ '\x7d') : StartsValue cs := by
  obtain ⟨after, rfl⟩ := h.cases
  exact ⟨opening, rfl, hopening⟩

theorem IsValue.startsValue (h : IsValue cs) : StartsValue cs := by
  cases h with
  | literal h =>
    simp only [literals, List.mem_cons, List.not_mem_nil, or_false] at h
    obtain rfl | rfl | rfl := h
    · exact ⟨'n', rfl, by decide⟩
    · exact ⟨'t', rfl, by decide⟩
    · exact ⟨'f', rfl, by decide⟩
  | string h =>
    obtain ⟨body, _, rfl⟩ := h
    exact ⟨'"', rfl, by decide⟩
  | number h =>
    obtain ⟨c, after, rfl, hc⟩ := h.head
    exact startsValue_numeral hc after
  | array h _ => exact h.startsValue (by decide)
  | object h _ _ => exact h.startsValue (by decide)

theorem StartsValue.skipGap_eq (h : StartsValue cs) (rest : List Char) :
    skipGap (cs ++ rest) = cs ++ rest := by
  obtain ⟨c, hc, hgap, -⟩ := h
  cases cs with
  | nil => simp at hc
  | cons d cs =>
    obtain rfl : d = c := by simpa using hc
    simp [skipGap, hgap]

theorem StartsValue.skipGap_gap (h : StartsValue cs) {gap : List Char} (hgap : IsGap gap)
    (rest : List Char) : skipGap (gap ++ (cs ++ rest)) = cs ++ rest := by
  rw [skipGap_append hgap, h.skipGap_eq]

theorem StartsValue.skipGap_write {p : Padded} (h : StartsValue p.text) (rest : List Char) :
    skipGap (p.write ++ rest) = p.text ++ (p.after ++ rest) := by
  rw [Padded.write, List.append_assoc, List.append_assoc, h.skipGap_gap p.gap_before]

@[simp] theorem skipValue_skipGap (fuel : Nat) (cs : List Char) :
    skipValue fuel (skipGap cs) = skipValue fuel cs := by
  cases fuel with
  | zero => rfl
  | succ fuel => simp [skipValue]

@[simp] theorem skipItems_skipGap (fuel : Nat) (cs : List Char) :
    skipItems fuel (skipGap cs) = skipItems fuel cs := by
  cases fuel with
  | zero => rfl
  | succ fuel => simp [skipItems]

@[simp] theorem skipMembers_skipGap (fuel : Nat) (cs : List Char) :
    skipMembers fuel (skipGap cs) = skipMembers fuel cs := by
  cases fuel with
  | zero => rfl
  | succ fuel => simp [skipMembers]

theorem skipValue_numeral {c : Char} (h : c = '-' ∨ c.isDigit) (fuel : Nat) (cs : List Char) :
    skipValue (fuel + 1) (c :: cs) = (numeral (c :: cs)).map Prod.snd := by
  have hgap : skipGap (c :: cs) = c :: cs := by
    simpa using (startsValue_numeral h cs).skipGap_eq []
  unfold skipValue
  rw [hgap]
  split <;> simp_all

/-- With this much fuel, passing over a value ends where the value does. -/
def SkippedBy (fuel : Nat) (cs : List Char) : Prop :=
  ∀ rest, Closes rest → skipValue fuel (cs ++ rest) = .ok rest

theorem SkippedBy.write {p : Padded} (h : SkippedBy fuel p.text) (hrest : Closes rest) :
    skipValue fuel (p.write ++ rest) = .ok (p.after ++ rest) := by
  have hafter := h (p.after ++ rest) (hrest.append p.gap_after)
  rw [Padded.write, List.append_assoc, List.append_assoc, ← skipValue_skipGap,
    skipGap_append p.gap_before, skipValue_skipGap, hafter]

section
variable {closing : Char} (hclosing : closing = ']' ∨ closing = '\x7d')
include hclosing

theorem closes_more (parts : List (List Char)) (rest : List Char) :
    Closes (more parts ++ closing :: rest) := by
  intro c hc
  cases parts with
  | nil =>
    obtain rfl : closing = c := by simpa [more] using hc
    exact .inr (.inr hclosing)
  | cons part parts =>
    obtain rfl : ',' = c := by simpa [more] using hc
    exact .inr (.inl rfl)

theorem skipGap_more {gap : List Char} (h : IsGap gap) (parts : List (List Char))
    (rest : List Char) :
    skipGap (gap ++ (more parts ++ closing :: rest)) = more parts ++ closing :: rest := by
  rw [skipGap_append h]
  cases parts with
  | nil => obtain rfl | rfl := hclosing <;> rfl
  | cons part parts => rfl

end

theorem Padded.length_text_le (p : Padded) : p.text.length ≤ p.write.length := by
  simp only [Padded.write, List.length_append]
  omega

theorem skipItems_last {after : List Char} (h : skipValue fuel cs = .ok after)
    (hafter : skipGap after = ']' :: rest) : skipItems (fuel + 1) cs = .ok rest := by
  simp [skipItems, h, hafter]

theorem skipItems_cons {after next : List Char} (h : skipValue fuel cs = .ok after)
    (hafter : skipGap after = ',' :: next) : skipItems (fuel + 1) cs = skipItems fuel next := by
  simp [skipItems, h, hafter]

theorem skipItems_of_items {items : List Padded} {item : Padded}
    (h : ∀ i ∈ item :: items, ∀ fuel, 2 * i.text.length ≤ fuel → SkippedBy fuel i.text)
    (hfuel : 2 * (item.write ++ more (items.map Padded.write)).length < fuel) :
    skipItems fuel (item.write ++ (more (items.map Padded.write) ++ ']' :: rest)) = .ok rest := by
  induction items generalizing item fuel with
  | nil =>
    have hlen := item.length_text_le
    obtain _ | fuel := fuel
    · simp at hfuel
    simp only [List.map_nil, List.length_append] at hfuel
    exact skipItems_last
      ((h item List.mem_cons_self fuel (by omega)).write (closes_more (.inl rfl) [] rest))
      (skipGap_append item.gap_after _)
  | cons next items ih =>
    have hlen := item.length_text_le
    obtain _ | fuel := fuel
    · simp at hfuel
    simp only [List.map_cons, more_cons, List.length_append, List.length_cons] at hfuel
    -- the comma pays for the unit of fuel that the item takes
    have hskip := (h item List.mem_cons_self fuel (by omega)).write
      (closes_more (.inl rfl) (next.write :: items.map Padded.write) rest)
    rw [more_cons, List.cons_append, List.append_assoc] at hskip
    rw [List.map_cons, more_cons, List.cons_append, List.append_assoc,
      skipItems_cons hskip (skipGap_append item.gap_after _)]
    refine ih (fun i hi => h i (List.mem_cons_of_mem item hi)) ?_
    simp only [List.length_append]
    omega

/-- A key and its colon. -/
theorem skipGap_key {p : Padded} {body : List Char} (h : p.text = '"' :: (body ++ ['"']))
    (cs : List Char) :
    skipGap (p.write ++ ':' :: cs) = '"' :: (body ++ '"' :: (p.after ++ ':' :: cs)) := by
  rw [Padded.write, List.append_assoc, skipGap_append p.gap_before, h]
  simp [skipGap, isGap]

theorem colon_append {gap : List Char} (h : IsGap gap) (cs : List Char) :
    colon (gap ++ ':' :: cs) = .ok cs := by
  rw [colon, skipGap_append h]
  rfl

theorem Entry.write_append (e : Entry) (cs : List Char) :
    e.write ++ cs = e.key.write ++ ':' :: (e.value.write ++ cs) := by
  simp [Entry.write]

theorem Entry.skipGap_write {e : Entry} {body : List Char} (h : e.key.text = '"' :: (body ++ ['"']))
    (cs : List Char) : skipGap (e.write ++ cs) =
      '"' :: (body ++ '"' :: (e.key.after ++ ':' :: (e.value.write ++ cs))) := by
  rw [Entry.write_append, skipGap_key h]

theorem Entry.length_value_le (e : Entry) : e.value.text.length ≤ e.write.length := by
  have := e.value.length_text_le
  simp only [Entry.write, List.length_append, List.length_cons]
  omega

section
variable {body afterKey value after next : List Char} (hkey : skipGap cs = '"' :: body)
  (hbody : skipString body = .ok afterKey) (hcolon : colon afterKey = .ok value)
  (hvalue : skipValue fuel value = .ok after)
include hkey hbody hcolon hvalue

theorem skipMembers_last (hafter : skipGap after = '\x7d' :: rest) :
    skipMembers (fuel + 1) cs = .ok rest := by
  simp [skipMembers, hkey, hbody, hcolon, hvalue, hafter]

theorem skipMembers_cons (hafter : skipGap after = ',' :: next) :
    skipMembers (fuel + 1) cs = skipMembers fuel next := by
  simp [skipMembers, hkey, hbody, hcolon, hvalue, hafter]

end

theorem skipMembers_of_entries {entries : List Entry} {e : Entry}
    (hkeys : ∀ e' ∈ e :: entries, IsLooseText e'.key.text)
    (h : ∀ e' ∈ e :: entries, ∀ fuel, 2 * e'.value.text.length ≤ fuel →
      SkippedBy fuel e'.value.text)
    (hfuel : 2 * (e.write ++ more (entries.map Entry.write)).length < fuel) :
    skipMembers fuel (e.write ++ (more (entries.map Entry.write) ++ '\x7d' :: rest)) =
      .ok rest := by
  induction entries generalizing e fuel with
  | nil =>
    have hlen := e.length_value_le
    obtain ⟨body, hbody, htext⟩ := hkeys e List.mem_cons_self
    obtain _ | fuel := fuel
    · simp at hfuel
    simp only [List.map_nil, List.length_append] at hfuel
    exact skipMembers_last (Entry.skipGap_write htext _) (skipString_of_isLoose hbody)
      (colon_append e.key.gap_after _)
      ((h e List.mem_cons_self fuel (by omega)).write (closes_more (.inr rfl) [] rest))
      (skipGap_append e.value.gap_after _)
  | cons next entries ih =>
    have hlen := e.length_value_le
    obtain ⟨body, hbody, htext⟩ := hkeys e List.mem_cons_self
    obtain _ | fuel := fuel
    · simp at hfuel
    simp only [List.map_cons, more_cons, List.length_append, List.length_cons] at hfuel
    have hskip := (h e List.mem_cons_self fuel (by omega)).write
      (closes_more (.inr rfl) (next.write :: entries.map Entry.write) rest)
    rw [more_cons, List.cons_append, List.append_assoc] at hskip
    rw [List.map_cons, more_cons, List.cons_append, List.append_assoc,
      skipMembers_cons (Entry.skipGap_write htext _) (skipString_of_isLoose hbody)
        (colon_append e.key.gap_after _) hskip (skipGap_append e.value.gap_after _)]
    refine ih (fun e' he' => hkeys e' (List.mem_cons_of_mem e he'))
      (fun e' he' => h e' (List.mem_cons_of_mem e he')) ?_
    simp only [List.length_append]
    omega

/-- A padded value does not look like the end of what it stands in. -/
theorem Padded.skipGap_write {p : Padded} (h : StartsValue p.text) (rest : List Char) :
    ∃ c cs, skipGap (p.write ++ rest) = c :: cs ∧ c ≠ ']' ∧ c ≠ '\x7d' := by
  obtain ⟨c, hc, -, hbracket, hbrace⟩ := id h
  obtain ⟨cs, hcs⟩ := List.head?_eq_some_iff.mp hc
  exact ⟨c, _, by rw [h.skipGap_write, hcs, List.cons_append], hbracket, hbrace⟩

/-- The items of an array are passed over when each of them is. -/
theorem IsArray.skippedBy {items : List Padded} (harray : IsArray items cs)
    (hitems : ∀ item ∈ items, IsValue item.text)
    (h : ∀ item ∈ items, ∀ fuel, 2 * item.text.length ≤ fuel → SkippedBy fuel item.text)
    (hfuel : 2 * cs.length ≤ fuel) : SkippedBy fuel cs := by
  intro rest hrest
  obtain ⟨-, gap, hgap, rfl⟩ | ⟨hne, rfl⟩ := harray
  · obtain _ | fuel := fuel
    · simp at hfuel
    have hclose : skipGap (gap ++ ']' :: rest) = ']' :: rest := skipGap_append hgap _
    have hopen : ∀ cs, skipGap ('[' :: cs) = '[' :: cs := fun _ => rfl
    simp [skipValue, hopen, hclose]
  · obtain _ | ⟨item, items⟩ := items
    · simp at hne
    obtain _ | fuel := fuel
    · simp at hfuel
    rw [List.map_cons, join_cons_more] at hfuel ⊢
    obtain ⟨c, after, hstart, hbracket, -⟩ := Padded.skipGap_write
      (hitems item List.mem_cons_self).startsValue (more (items.map Padded.write) ++ ']' :: rest)
    have hskip : skipItems fuel (item.write ++ (more (items.map Padded.write) ++ ']' :: rest)) =
        .ok rest := by
      apply skipItems_of_items h
      simp only [List.length_append, List.length_cons] at hfuel ⊢
      omega
    rw [← skipItems_skipGap, hstart] at hskip
    have hopen : ∀ cs, skipGap ('[' :: cs) = '[' :: cs := fun _ => rfl
    simp [skipValue, hopen, hstart, hbracket, hskip]

/-- The members of an object are passed over when each of their values is. -/
theorem IsObject.skippedBy {entries : List Entry} (hobject : IsObject entries cs)
    (hkeys : ∀ e ∈ entries, IsLooseText e.key.text)
    (h : ∀ e ∈ entries, ∀ fuel, 2 * e.value.text.length ≤ fuel → SkippedBy fuel e.value.text)
    (hfuel : 2 * cs.length ≤ fuel) : SkippedBy fuel cs := by
  intro rest hrest
  obtain ⟨-, gap, hgap, rfl⟩ | ⟨hne, rfl⟩ := hobject
  · obtain _ | fuel := fuel
    · simp at hfuel
    have hclose : skipGap (gap ++ '\x7d' :: rest) = '\x7d' :: rest := skipGap_append hgap _
    have hopen : ∀ cs, skipGap ('\x7b' :: cs) = '\x7b' :: cs := fun _ => rfl
    simp [skipValue, hopen, hclose]
  · obtain _ | ⟨e, entries⟩ := entries
    · simp at hne
    obtain _ | fuel := fuel
    · simp at hfuel
    rw [List.map_cons, join_cons_more] at hfuel ⊢
    have hkey : StartsValue e.key.text := (IsValue.string (hkeys e List.mem_cons_self)).startsValue
    obtain ⟨c, after, hstart, -, hbrace⟩ := Padded.skipGap_write hkey
      (':' :: (e.value.write ++ (more (entries.map Entry.write) ++ '\x7d' :: rest)))
    rw [← Entry.write_append] at hstart
    have hskip : skipMembers fuel (e.write ++ (more (entries.map Entry.write) ++ '\x7d' :: rest)) =
        .ok rest := by
      apply skipMembers_of_entries hkeys h
      simp only [List.length_append, List.length_cons] at hfuel ⊢
      omega
    rw [← skipMembers_skipGap, hstart] at hskip
    have hopen : ∀ cs, skipGap ('\x7b' :: cs) = '\x7b' :: cs := fun _ => rfl
    simp [skipValue, hopen, hstart, hbrace, hskip]

/-- Every value is passed over, whatever its depth. -/
theorem IsValue.skippedBy (h : IsValue cs) (hfuel : 2 * cs.length ≤ fuel) : SkippedBy fuel cs := by
  induction h generalizing fuel with
  | @literal cs h =>
    have hall : ∀ cs ∈ literals, 0 < cs.length := by decide
    have hlen := hall cs h
    obtain _ | fuel := fuel
    · omega
    intro rest _
    simp only [literals, List.mem_cons, List.not_mem_nil, or_false] at h
    obtain rfl | rfl | rfl := h <;> rfl
  | string h =>
    obtain ⟨body, hbody, rfl⟩ := h
    obtain _ | fuel := fuel
    · simp at hfuel
    intro rest _
    have hskip : skipString (body ++ '"' :: rest) = .ok rest := skipString_of_isLoose hbody
    have hopen : ∀ cs, skipGap ('"' :: cs) = '"' :: cs := fun _ => rfl
    simp [skipValue, hopen, hskip]
  | number h =>
    obtain ⟨c, after, rfl, hc⟩ := h.head
    obtain _ | fuel := fuel
    · simp at hfuel
    intro rest hrest
    obtain ⟨n, hn⟩ := numeral_of_isNumber h hrest
    rw [List.cons_append] at hn ⊢
    rw [skipValue_numeral hc, hn]
    rfl
  | array h hitems ih => exact h.skippedBy hitems (fun i hi fuel => ih i hi) hfuel
  | object h hkeys _ ih => exact h.skippedBy hkeys (fun e he fuel => ih e he) hfuel

end
end RetentionJobs.Json
