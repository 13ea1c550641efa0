import Mathlib.Tactic.IntervalCases
import RetentionJobs.Text.Percent
/-! What the encodings of a text leave alone. Characters that are written as UTF-8 are read back,
and a text without a percent sign before two hexadecimal digits is not changed by decoding. -/
namespace RetentionJobs.Text

/-! ### UTF-8 -/

theorem toNat_ofNat_of_lt {n : Nat} (h : n < 256) : (UInt8.ofNat n).toNat = n := by
  rw [UInt8.toNat_ofNat']
  exact Nat.mod_eq_of_lt h

theorem utf8EncodeChar_ascii {c : Char} (h : c.toNat < 0x80) :
    String.utf8EncodeChar c = [UInt8.ofNat c.toNat] :=
  if_pos (Nat.le_of_lt_succ h)

theorem lead_one {n : Nat} (h : n < 0x80) : lead (UInt8.ofNat n) = .ok (some (Char.ofNat n)) := by
  interval_cases n <;> rfl

theorem lead_two {n : Nat} (h : 2 ≤ n) (h' : n < 32) :
    lead (UInt8.ofNat (n + 192)) = .error ⟨1, n, 0x80, 0xBF⟩ := by
  interval_cases n <;> rfl

theorem lead_three {n : Nat} (h' : n < 16) :
    lead (UInt8.ofNat (n + 224)) =
      .error ⟨2, n, if n = 0 then 0xA0 else 0x80, if n = 13 then 0x9F else 0xBF⟩ := by
  interval_cases n <;> rfl

theorem lead_four {n : Nat} (h' : n < 5) :
    lead (UInt8.ofNat (n + 240)) =
      .error ⟨3, n, if n = 0 then 0x90 else 0x80, if n = 4 then 0x8F else 0xBF⟩ := by
  interval_cases n <;> rfl

theorem utf8Decode_of_lead {b : UInt8} {p : Pending} (h : lead b = .error p) (rest : List UInt8) :
    utf8Decode none (b :: rest) = utf8Decode (some p) rest := by
  simp only [utf8Decode, h]

/-- A further byte of a character has six bits. -/
def Fits (low high : UInt8) (n : Nat) : Prop :=
  n < 64 ∧ low.toNat ≤ n + 128 ∧ n + 128 ≤ high.toNat

theorem fits_of_lt {n : Nat} (h : n < 64) : Fits 0x80 0xBF n :=
  ⟨h, Nat.le_add_left 128 n, by change n + 128 ≤ 191; omega⟩

/-- A byte after the first has narrower bounds where the first one is extreme. -/
theorem fits_of_extreme {n : Nat} (h : n < 64) {least most : Prop} [Decidable least]
    [Decidable most] {low high : UInt8} (hlow : least → low.toNat ≤ n + 128)
    (hhigh : most → n + 128 ≤ high.toNat) :
    Fits (if least then low else 0x80) (if most then high else 0xBF) n := by
  obtain ⟨_, hlow', hhigh'⟩ := fits_of_lt h
  refine ⟨h, ?_, ?_⟩
  · split
    · exact hlow ‹_›
    · exact hlow'
  · split
    · exact hhigh ‹_›
    · exact hhigh'

theorem Fits.bounds {low high : UInt8} {n : Nat} (h : Fits low high n) :
    low ≤ UInt8.ofNat (n + 128) ∧ UInt8.ofNat (n + 128) ≤ high ∧
      (UInt8.ofNat (n + 128)).toNat = n + 128 := by
  obtain ⟨hlt, hlow, hhigh⟩ := h
  have hn : (UInt8.ofNat (n + 128)).toNat = n + 128 := toNat_ofNat_of_lt (by omega)
  rw [UInt8.le_iff_toNat_le, UInt8.le_iff_toNat_le, hn]
  exact ⟨hlow, hhigh, rfl⟩

theorem utf8Decode_next {low high : UInt8} {n : Nat} (h : Fits low high n) (missing bits : Nat)
    (rest : List UInt8) :
    utf8Decode (some ⟨missing + 2, bits, low, high⟩) (UInt8.ofNat (n + 128) :: rest) =
      utf8Decode (some ⟨missing + 1, bits * 64 + n, 0x80, 0xBF⟩) rest := by
  obtain ⟨hlow, hhigh, hn⟩ := h.bounds
  have hmissing : ¬ missing + 2 ≤ 1 := by omega
  simp only [utf8Decode, hlow, hhigh, and_self, if_true, hmissing, if_false, hn,
    Nat.add_sub_cancel]
  rfl

theorem utf8Decode_last {low high : UInt8} {n : Nat} (h : Fits low high n) (bits : Nat)
    (rest : List UInt8) :
    utf8Decode (some ⟨1, bits, low, high⟩) (UInt8.ofNat (n + 128) :: rest) =
      some (Char.ofNat (bits * 64 + n)) :: utf8Decode none rest := by
  obtain ⟨hlow, hhigh, hn⟩ := h.bounds
  simp only [utf8Decode, hlow, hhigh, and_self, if_true, Nat.le_refl, hn, Nat.add_sub_cancel]

/-- The bytes of a character, by how many there are. -/
theorem utf8EncodeChar_cases (c : Char) :
    (c.toNat < 0x80 ∧ String.utf8EncodeChar c = [UInt8.ofNat c.toNat]) ∨
      (0x80 ≤ c.toNat ∧ c.toNat < 0x800 ∧ String.utf8EncodeChar c =
        [UInt8.ofNat (c.toNat / 64 % 32 + 192), UInt8.ofNat (c.toNat % 64 + 128)]) ∨
      (0x800 ≤ c.toNat ∧ c.toNat < 0x10000 ∧ String.utf8EncodeChar c =
        [UInt8.ofNat (c.toNat / 4096 % 16 + 224), UInt8.ofNat (c.toNat / 64 % 64 + 128),
          UInt8.ofNat (c.toNat % 64 + 128)]) ∨
      (0x10000 ≤ c.toNat ∧ String.utf8EncodeChar c =
        [UInt8.ofNat (c.toNat / 262144 % 8 + 240), UInt8.ofNat (c.toNat / 4096 % 64 + 128),
          UInt8.ofNat (c.toNat / 64 % 64 + 128), UInt8.ofNat (c.toNat % 64 + 128)]) := by
  have htoNat : c.val.toNat = c.toNat := rfl
  simp only [String.utf8EncodeChar, htoNat]
  by_cases hone : c.toNat ≤ 127
  · exact .inl ⟨by omega, if_pos hone⟩
  rw [if_neg hone]
  by_cases htwo : c.toNat ≤ 2047
  · exact .inr (.inl ⟨by omega, by omega, if_pos htwo⟩)
  rw [if_neg htwo]
  by_cases hthree : c.toNat ≤ 65535
  · exact .inr (.inr (.inl ⟨by omega, by omega, if_pos hthree⟩))
  · exact .inr (.inr (.inr ⟨by omega, if_neg hthree⟩))

theorem utf8Decode_encode (c : Char) (rest : List UInt8) :
    utf8Decode none (String.utf8EncodeChar c ++ rest) = some c :: utf8Decode none rest := by
  have hvalid : c.toNat < 0xD800 ∨ 0xDFFF < c.toNat ∧ c.toNat < 0x110000 := c.valid
  have hmiddle : Fits 0x80 0xBF (c.toNat / 64 % 64) := fits_of_lt (by omega)
  have hlast : Fits 0x80 0xBF (c.toNat % 64) := fits_of_lt (by omega)
  obtain ⟨h, hbytes⟩ | ⟨h, h', hbytes⟩ | ⟨h, h', hbytes⟩ | ⟨h, hbytes⟩ := utf8EncodeChar_cases c
  · rw [hbytes, List.singleton_append, utf8Decode, lead_one h, Char.ofNat_toNat]
  · have hbits : c.toNat / 64 % 32 * 64 + c.toNat % 64 = c.toNat := by omega
    rw [hbytes, List.cons_append, utf8Decode_of_lead (lead_two (by omega) (by omega)),
      List.singleton_append, utf8Decode_last hlast, hbits, Char.ofNat_toNat]
  · have hbits : (c.toNat / 4096 % 16 * 64 + c.toNat / 64 % 64) * 64 + c.toNat % 64 = c.toNat := by
      omega
    have hsecond : Fits (if c.toNat / 4096 % 16 = 0 then 0xA0 else 0x80)
        (if c.toNat / 4096 % 16 = 13 then 0x9F else 0xBF) (c.toNat / 64 % 64) := by
      refine fits_of_extreme (by omega) (fun _ => ?_) (fun _ => ?_)
      · change 160 ≤ _; omega
      · change _ ≤ 159; omega
    rw [hbytes, List.cons_append, utf8Decode_of_lead (lead_three (by omega)), List.cons_append,
      utf8Decode_next hsecond, List.singleton_append, utf8Decode_last hlast, hbits,
      Char.ofNat_toNat]
  · have hbits : ((c.toNat / 262144 % 8 * 64 + c.toNat / 4096 % 64) * 64 +
        c.toNat / 64 % 64) * 64 + c.toNat % 64 = c.toNat := by
      omega
    have hsecond : Fits (if c.toNat / 262144 % 8 = 0 then 0x90 else 0x80)
        (if c.toNat / 262144 % 8 = 4 then 0x8F else 0xBF) (c.toNat / 4096 % 64) := by
      refine fits_of_extreme (by omega) (fun _ => ?_) (fun _ => ?_)
      · change 144 ≤ _; omega
      · change _ ≤ 143; omega
    rw [hbytes, List.cons_append, utf8Decode_of_lead (lead_four (by omega)), List.cons_append,
      utf8Decode_next hsecond, List.cons_append, utf8Decode_next hmiddle, List.singleton_append,
      utf8Decode_last hlast, hbits, Char.ofNat_toNat]

theorem utf8Decode_utf8Bytes (cs : List Char) : utf8Decode none (utf8Bytes cs) = cs.map some := by
  induction cs with
  | nil => rfl
  | cons c cs ih =>
    rw [utf8Bytes, List.flatMap_cons, utf8Decode_encode, List.map_cons]
    exact congrArg _ ih

/-- Text that is written as UTF-8 is read back. -/
theorem utf8?_utf8Bytes (cs : List Char) : utf8? (utf8Bytes cs) = some cs := by
  have hpure : cs.mapM (fun c => (pure (id c) : Option Char)) = pure (cs.map id) := List.mapM_pure
  rw [List.map_id] at hpure
  rw [utf8?, utf8Decode_utf8Bytes, List.mapM_map]
  exact hpure

/-! ### Percent signs -/

def isHex (c : Char) : Bool := c.isDigit || ('a' ≤ c && c ≤ 'f') || ('A' ≤ c && c ≤ 'F')

/-- A percent sign before two hexadecimal digits. -/
def HasEscape (cs : List Char) : Prop :=
  ∃ x y, isHex x ∧ isHex y ∧ ['%', x, y] <:+: cs

theorem percentDecode_cons_of_ne {b : UInt8} (h : b ≠ 37) (rest : List UInt8) :
    percentDecode (b :: rest) = b :: percentDecode rest := by
  match rest with
  | [] => rfl
  | [_] => rfl
  | _ :: _ :: _ => rw [percentDecode, if_neg h]

theorem percentDecode_append_of_not_mem {front : List UInt8} (h : 37 ∉ front) (rest : List UInt8) :
    percentDecode (front ++ rest) = front ++ percentDecode rest := by
  induction front with
  | nil => rfl
  | cons b front ih =>
    obtain ⟨hb, hfront⟩ := List.ne_and_not_mem_of_not_mem_cons h
    rw [List.cons_append, percentDecode_cons_of_ne hb.symm, ih hfront, List.cons_append]

/-- A percent sign that two digits do not follow. -/
theorem percentDecode_percent {rest : List UInt8}
    (h : ∀ x y more, rest = x :: y :: more → hexByte? x = none ∨ hexByte? y = none) :
    percentDecode (37 :: rest) = 37 :: percentDecode rest := by
  match rest with
  | [] => rfl
  | [_] => rfl
  | x :: y :: more =>
    rw [percentDecode, if_pos rfl]
    obtain hx | hy := h x y more rfl
    · rw [hx]
    · rw [hy]
      cases hexByte? x <;> rfl

theorem isHex_of_hexByte? {b : UInt8} (h : hexByte? b ≠ none) :
    b.toNat < 0x80 ∧ isHex (Char.ofNat b.toNat) := by
  have hall : ∀ n < 256, hexByte? (UInt8.ofNat n) ≠ none → n < 0x80 ∧ isHex (Char.ofNat n) := by
    decide +kernel
  exact hall b.toNat b.toNat_lt (by rwa [UInt8.ofNat_toNat])

theorem le_of_mem_utf8EncodeChar {c : Char} (hc : 0x80 ≤ c.toNat) {b : UInt8}
    (hb : b ∈ String.utf8EncodeChar c) : 0x80 ≤ b.toNat := by
  obtain ⟨h, _⟩ | ⟨_, _, hbytes⟩ | ⟨_, _, hbytes⟩ | ⟨_, hbytes⟩ := utf8EncodeChar_cases c
  · omega
  all_goals
    rw [hbytes] at hb
    simp only [List.mem_cons, List.not_mem_nil, or_false] at hb
    rcases hb with rfl | rfl | rfl | rfl <;> rw [UInt8.toNat_ofNat'] <;> omega

/-- A byte of an ASCII character is one. -/
theorem eq_cons_of_utf8Bytes {cs : List Char} {b : UInt8} {rest : List UInt8}
    (h : utf8Bytes cs = b :: rest) (hb : b.toNat < 0x80) :
    ∃ cs', cs = Char.ofNat b.toNat :: cs' ∧ utf8Bytes cs' = rest := by
  cases cs with
  | nil => cases h
  | cons c cs =>
    rw [utf8Bytes, List.flatMap_cons] at h
    by_cases hc : c.toNat < 0x80
    · rw [utf8EncodeChar_ascii hc, List.singleton_append] at h
      obtain ⟨rfl, hrest⟩ := List.cons.inj h
      rw [toNat_ofNat_of_lt (by omega), Char.ofNat_toNat]
      exact ⟨cs, rfl, hrest⟩
    · obtain ⟨b', front, hfront⟩ := List.exists_cons_of_ne_nil (String.utf8EncodeChar_ne_nil (c := c))
      rw [hfront, List.cons_append] at h
      have hle := le_of_mem_utf8EncodeChar (Nat.le_of_not_lt hc) (hfront ▸ List.mem_cons_self)
      rw [(List.cons.inj h).1] at hle
      omega

/-- A text without escapes is not changed by decoding. -/
theorem percentDecode_utf8Bytes {cs : List Char} (h : ¬ HasEscape cs) :
    percentDecode (utf8Bytes cs) = utf8Bytes cs := by
  induction cs with
  | nil => rfl
  | cons c cs ih =>
    have hcs : ¬ HasEscape cs := fun ⟨x, y, hx, hy, hwithin⟩ =>
      h ⟨x, y, hx, hy, hwithin.trans (List.suffix_cons c cs).isInfix⟩
    have ih := ih hcs
    by_cases hpercent : c = '%'
    · subst hpercent
      change percentDecode (37 :: utf8Bytes cs) = 37 :: utf8Bytes cs
      rw [percentDecode_percent, ih]
      intro x y more hmore
      by_contra hdigits
      obtain ⟨hx, hy⟩ := not_or.mp hdigits
      obtain ⟨hxlt, hxhex⟩ := isHex_of_hexByte? hx
      obtain ⟨hylt, hyhex⟩ := isHex_of_hexByte? hy
      obtain ⟨cs', rfl, hcs'⟩ := eq_cons_of_utf8Bytes hmore hxlt
      obtain ⟨cs'', rfl, _⟩ := eq_cons_of_utf8Bytes hcs' hylt
      exact h ⟨_, _, hxhex, hyhex, [], cs'', rfl⟩
    · have hnot : 37 ∉ String.utf8EncodeChar c := by
        intro hmem
        by_cases hc : c.toNat < 0x80
        · rw [utf8EncodeChar_ascii hc, List.mem_singleton] at hmem
          have htoNat := congrArg UInt8.toNat hmem
          rw [toNat_ofNat_of_lt (by omega)] at htoNat
          exact hpercent (Char.toNat_inj.mp htoNat.symm)
        · exact absurd (le_of_mem_utf8EncodeChar (Nat.le_of_not_lt hc) hmem) (by decide)
      rw [utf8Bytes, List.flatMap_cons, percentDecode_append_of_not_mem hnot]
      exact congrArg _ ih

/-! ### Lengths -/

def isLead (b : UInt8) : Bool := b < 0x80 || 0xC0 ≤ b

/-- How many bytes are not in the middle of a character. -/
def leads (bytes : List UInt8) : Nat := bytes.countP isLead

theorem leads_cons (b : UInt8) (bytes : List UInt8) :
    leads (b :: bytes) = leads bytes + if isLead b then 1 else 0 := List.countP_cons

theorem leads_utf8EncodeChar (c : Char) : leads (String.utf8EncodeChar c) = 1 := by
  have hone : ∀ n < 0x80, isLead (UInt8.ofNat n) := by decide +kernel
  have hmore : ∀ n < 64, isLead (UInt8.ofNat (n + 192)) := by decide +kernel
  have hmiddle : ∀ n < 64, isLead (UInt8.ofNat (n + 128)) = false := by decide +kernel
  have hthree : isLead (UInt8.ofNat (c.toNat / 4096 % 16 + 224)) := hmore (_ + 32) (by omega)
  have hfour : isLead (UInt8.ofNat (c.toNat / 262144 % 8 + 240)) := hmore (_ + 48) (by omega)
  obtain ⟨h, hbytes⟩ | ⟨_, _, hbytes⟩ | ⟨_, _, hbytes⟩ | ⟨_, hbytes⟩ := utf8EncodeChar_cases c
  · rw [hbytes, leads_cons, hone _ h]
    rfl
  · rw [hbytes, leads_cons, leads_cons, hmore _ (by omega), hmiddle _ (by omega)]
    rfl
  · rw [hbytes, leads_cons, leads_cons, leads_cons, hthree, hmiddle _ (by omega),
      hmiddle _ (by omega)]
    rfl
  · rw [hbytes, leads_cons, leads_cons, leads_cons, leads_cons, hfour, hmiddle _ (by omega),
      hmiddle _ (by omega), hmiddle _ (by omega)]
    rfl

theorem leads_utf8Bytes (cs : List Char) : leads (utf8Bytes cs) = cs.length := by
  induction cs with
  | nil => rfl
  | cons c cs ih =>
    rw [utf8Bytes, List.flatMap_cons, leads, List.countP_append, List.length_cons, Nat.add_comm]
    exact congrArg₂ (· + ·) ih (leads_utf8EncodeChar c)

theorem isLead_of_hexByte? {b : UInt8} (h : hexByte? b ≠ none) : isLead b := by
  have hlt : b < 0x80 := UInt8.lt_iff_toNat_lt.mpr (isHex_of_hexByte? h).1
  simp [isLead, hlt]

theorem leads_escape {x y : UInt8} (hx : hexByte? x ≠ none) (hy : hexByte? y ≠ none)
    (b : UInt8) {rest rest' : List UInt8} (h : leads rest' ≤ leads rest) :
    leads (b :: rest') < leads (37 :: x :: y :: rest) := by
  simp only [leads_cons, isLead_of_hexByte? hx, isLead_of_hexByte? hy, if_true]
  split <;> omega

theorem leads_percentDecode_le (bytes : List UInt8) :
    leads (percentDecode bytes) ≤ leads bytes := by
  fun_induction percentDecode bytes with
  | case1 => exact Nat.le_refl _
  | case2 x y rest high low hy hx ih =>
    exact (leads_escape (hx ▸ Option.some_ne_none _) (hy ▸ Option.some_ne_none _) _ ih).le
  | case3 x y rest _ ih => rw [leads_cons, leads_cons]; omega
  | case4 b x y rest _ ih => rw [leads_cons, leads_cons]; omega
  | case5 b rest _ ih => rw [leads_cons, leads_cons]; omega

/-- Where two digits follow a percent sign, there are fewer characters after decoding. -/
theorem leads_percentDecode_lt {x y : UInt8} (hx : hexByte? x ≠ none) (hy : hexByte? y ≠ none)
    {bytes : List UInt8} (h : [37, x, y] <:+: bytes) :
    leads (percentDecode bytes) < leads bytes := by
  fun_induction percentDecode bytes with
  | case1 => exact absurd (List.infix_nil.mp h) (List.cons_ne_nil _ _)
  | case2 x y rest high low hy hx ih =>
    exact leads_escape (hx ▸ Option.some_ne_none _) (hy ▸ Option.some_ne_none _) _
      (leads_percentDecode_le rest)
  | case3 x' y' rest hplain ih =>
    obtain hstarts | hwithin := List.infix_cons_iff.mp h
    · simp only [List.cons_prefix_cons] at hstarts
      obtain ⟨_, rfl, rfl, _⟩ := hstarts
      obtain ⟨high, hx⟩ := Option.ne_none_iff_exists'.mp hx
      obtain ⟨low, hy⟩ := Option.ne_none_iff_exists'.mp hy
      exact absurd hy (hplain high low hx)
    · have ih := ih hwithin
      rw [leads_cons, leads_cons _ (_ :: _)]
      omega
  | case4 b x' y' rest hb ih =>
    obtain hstarts | hwithin := List.infix_cons_iff.mp h
    · exact absurd (List.cons_prefix_cons.mp hstarts).1.symm hb
    · have ih := ih hwithin
      rw [leads_cons, leads_cons _ (_ :: _)]
      omega
  | case5 b rest hshort ih =>
    obtain hstarts | hwithin := List.infix_cons_iff.mp h
    · obtain ⟨more, hmore⟩ := (List.cons_prefix_cons.mp hstarts).2
      exact absurd hmore.symm (hshort x y more)
    · have ih := ih hwithin
      rw [leads_cons, leads_cons]
      omega

theorem isLead_of_lead {b : UInt8} (h : lead b ≠ .ok none) : isLead b := by
  by_contra hb
  simp only [isLead, Bool.or_eq_true, decide_eq_true_eq, not_or, UInt8.not_lt, UInt8.not_le] at hb
  have hlt : b < 0xC2 := UInt8.lt_trans hb.2 (by decide)
  exact h (by rw [lead, if_neg (UInt8.not_lt.mpr hb.1), if_pos hlt])

/-- What a byte begins, and what follows. -/
theorem countP_lead_le {b : UInt8} {rest : List UInt8}
    (hnone : (utf8Decode none rest).countP Option.isSome ≤ leads rest)
    (hsome : ∀ p, (utf8Decode (some p) rest).countP Option.isSome ≤ leads rest + 1) :
    (match lead b with
      | .ok c => c :: utf8Decode none rest
      | .error p => utf8Decode (some p) rest).countP Option.isSome ≤ leads (b :: rest) := by
  rw [leads_cons]
  split
  · rename_i c hlead
    cases c with
    | none =>
      rw [List.countP_cons_of_neg (by simp)]
      omega
    | some c =>
      rw [List.countP_cons_of_pos rfl, if_pos (isLead_of_lead (by simp [hlead]))]
      omega
  · rename_i p hlead
    rw [if_pos (isLead_of_lead (by simp [hlead]))]
    exact hsome p

/-- No more characters are read than there are bytes that begin one. -/
theorem countP_utf8Decode_le (state : Option Pending) (bytes : List UInt8) :
    (utf8Decode state bytes).countP Option.isSome ≤ leads bytes + if state.isSome then 1 else 0 := by
  fun_induction utf8Decode state bytes with
  | case1 => exact Nat.zero_le _
  | case2 => exact Nat.zero_le _
  | case3 b rest fresh hnone hsome =>
    exact countP_lead_le hnone hsome
  | case4 b rest p _ bits _ hnone _ =>
    rw [List.countP_cons_of_pos rfl, leads_cons]
    simp only [Option.isSome_none, Option.isSome_some, Bool.false_eq_true, if_false,
      if_true] at hnone ⊢
    omega
  | case5 b rest p _ bits _ _ _ hsome =>
    rw [leads_cons]
    simp only [Option.isSome_some, if_true] at hsome ⊢
    omega
  | case6 b rest fresh p _ hnone hsome =>
    rw [List.countP_cons_of_neg (by simp)]
    exact (countP_lead_le hnone hsome).trans (Nat.le_add_right _ _)

theorem eq_map_some_of_mapM {α : Type} {xs : List (Option α)} {ys : List α}
    (h : xs.mapM id = some ys) : xs = ys.map some := by
  induction xs generalizing ys with
  | nil =>
    obtain rfl := Option.some.inj h
    rfl
  | cons x xs ih =>
    simp only [List.mapM_cons, id, Option.bind_eq_bind, Option.bind_eq_some_iff] at h
    obtain ⟨y, rfl, ys', hys', hys⟩ := h
    obtain rfl := Option.some.inj hys
    rw [ih hys', List.map_cons]

theorem utf8EncodeChar_hex {c : Char} (h : isHex c) :
    ∃ b, String.utf8EncodeChar c = [b] ∧ hexByte? b ≠ none := by
  have hall : ∀ n < 0x80, isHex (Char.ofNat n) → hexByte? (UInt8.ofNat n) ≠ none := by
    decide +kernel
  have hlt : c.toNat < 0x80 := by
    simp only [isHex, Bool.or_eq_true, Bool.and_eq_true, decide_eq_true_eq] at h
    obtain (hdigit | ⟨_, hle⟩) | ⟨_, hle⟩ := h
    · exact Nat.lt_of_le_of_lt (Char.isDigit_iff_toNat.mp hdigit).2 (by decide)
    · exact Nat.lt_of_le_of_lt hle (by decide)
    · exact Nat.lt_of_le_of_lt hle (by decide)
  exact ⟨_, utf8EncodeChar_ascii hlt, hall _ hlt (by rwa [Char.ofNat_toNat])⟩

/-- A text with an escape is longer than what it is decoded to. -/
theorem length_lt_of_hasEscape {cs name : List Char} (h : HasEscape cs)
    (hname : utf8? (percentDecode (utf8Bytes cs)) = some name) : name.length < cs.length := by
  obtain ⟨x, y, hx, hy, front, back, rfl⟩ := h
  obtain ⟨b, hxbytes, hb⟩ := utf8EncodeChar_hex hx
  obtain ⟨b', hybytes, hb'⟩ := utf8EncodeChar_hex hy
  have hwithin : [37, b, b'] <:+: utf8Bytes (front ++ ['%', x, y] ++ back) := by
    refine ⟨utf8Bytes front, utf8Bytes back, ?_⟩
    simp only [utf8Bytes, List.flatMap_append, List.flatMap_cons, List.flatMap_nil, hxbytes, hybytes]
    rfl
  have hread := countP_utf8Decode_le none (percentDecode (utf8Bytes (front ++ ['%', x, y] ++ back)))
  rw [eq_map_some_of_mapM hname, List.countP_map] at hread
  have hfewer := leads_percentDecode_lt hb hb' hwithin
  rw [leads_utf8Bytes] at hfewer
  have hlength : name.countP (Option.isSome ∘ some) = name.length :=
    List.countP_eq_length.mpr fun _ _ => rfl
  rw [hlength] at hread
  exact Nat.lt_of_le_of_lt hread hfewer

end RetentionJobs.Text
