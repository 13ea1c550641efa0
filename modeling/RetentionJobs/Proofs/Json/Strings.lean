import RetentionJobs.Proofs.Json.Syntax
/-! Every spelling of a string is read as that string, and whatever is read as a string can be
passed over. -/
namespace RetentionJobs.Json
open RetentionJobs.Text

theorem hexValue?_of_isHexDigit {c : Char} {n : Nat} (h : IsHexDigit c n) :
    hexValue? c = some n := by
  obtain ⟨hn, letters, rfl⟩ := h
  exact hexValue?_hexDigit letters hn

theorem IsQuad.lt {n : Nat} {quad : List Char} (h : IsQuad n quad) : n < 0x10000 := by
  obtain ⟨⟨hi, -⟩, ⟨hj, -⟩, ⟨hk, -⟩, ⟨hl, -⟩⟩ := h
  omega

theorem IsQuad.cases {n : Nat} {quad : List Char} (h : IsQuad n quad) :
    ∃ a b c d, quad = [a, b, c, d] ∧ hexQuad? a b c d = some n := by
  obtain @⟨a, b, c, d, i, j, k, l, ha, hb, hc, hd⟩ := h
  refine ⟨a, b, c, d, rfl, ?_⟩
  simp [hexQuad?, hexValue?_of_isHexDigit ha, hexValue?_of_isHexDigit hb,
    hexValue?_of_isHexDigit hc, hexValue?_of_isHexDigit hd]

theorem escapedChar?_of_mem {e c : Char} (h : (e, c) ∈ shortEscapes) :
    escapedChar? e = some c ∧ e ≠ 'u' := by
  have hall : ∀ p ∈ shortEscapes, escapedChar? p.1 = some p.2 ∧ p.1 ≠ 'u' := by decide
  exact hall (e, c) h

/-- No code of a character is a surrogate. -/
theorem not_isSurrogate (c : Char) :
    isHighSurrogate c.toNat = false ∧ isLowSurrogate c.toNat = false := by
  have hvalid : c.toNat < 0xD800 ∨ 0xDFFF < c.toNat ∧ c.toNat < 0x110000 := c.valid
  simp only [isHighSurrogate, isLowSurrogate, Bool.and_eq_false_iff, decide_eq_false_iff_not]
  omega

/-- A pair of surrogates is the code of a character, split after its lowest ten bits. -/
theorem joinSurrogates_split {c : Char} (h : 0x10000 ≤ c.toNat) :
    isHighSurrogate (0xD800 + (c.toNat - 0x10000) / 0x400) ∧
      isLowSurrogate (0xDC00 + (c.toNat - 0x10000) % 0x400) ∧
      joinSurrogates (0xD800 + (c.toNat - 0x10000) / 0x400)
        (0xDC00 + (c.toNat - 0x10000) % 0x400) = c := by
  have hvalid : c.toNat < 0xD800 ∨ 0xDFFF < c.toNat ∧ c.toNat < 0x110000 := c.valid
  have hjoin : 0x10000 + (0xD800 + (c.toNat - 0x10000) / 0x400 - 0xD800) * 0x400 +
      (0xDC00 + (c.toNat - 0x10000) % 0x400 - 0xDC00) = c.toNat := by omega
  refine ⟨?_, ?_, ?_⟩
  · simp only [isHighSurrogate, Bool.and_eq_true, decide_eq_true_eq]
    omega
  · simp only [isLowSurrogate, Bool.and_eq_true, decide_eq_true_eq]
    omega
  · rw [joinSurrogates, hjoin, Char.ofNat_toNat]

section
variable {s body rest : List Char}

/-- One character is read from any of its spellings. -/
theorem stringBody_spelled {c : Char} {text : List Char} (hc : Spelled c text)
    (h : stringBody body = .ok (s, rest)) : stringBody (text ++ body) = .ok (c :: s, rest) := by
  cases hc with
  | plain hplain =>
    obtain ⟨hlow, hquote, hback⟩ := hplain
    simp [stringBody, hback, Nat.not_lt.mpr hlow, h]
  | short he =>
    obtain ⟨hescape, hunit⟩ := escapedChar?_of_mem he
    simp [stringBody, hunit, hescape, h]
  | unit hquad =>
    obtain ⟨hhigh, hlow⟩ := not_isSurrogate c
    obtain ⟨i, j, k, l, rfl, hread⟩ := hquad.cases
    simp [stringBody, hread, hhigh, hlow, h, Char.ofNat_toNat]
  | pair hlarge hquad hquad' =>
    obtain ⟨hhigh, hlow, hjoin⟩ := joinSurrogates_split hlarge
    obtain ⟨i, j, k, l, rfl, hread⟩ := hquad.cases
    obtain ⟨i', j', k', l', rfl, hread'⟩ := hquad'.cases
    simp [stringBody, hread, hread', hhigh, hlow, h, hjoin]

/-- A string is read from any of its texts. -/
theorem stringBody_of_isBody (h : IsBody s body) :
    stringBody (body ++ '"' :: rest) = .ok (s, rest) := by
  induction h with
  | nil => rfl
  | cons hc _ ih =>
    rw [List.append_assoc]
    exact stringBody_spelled hc ih

theorem skipString_of_isLoose (h : IsLoose body) : skipString (body ++ '"' :: rest) = .ok rest := by
  induction h with
  | nil => rfl
  | plain hplain _ ih =>
    obtain ⟨hlow, hquote, hback⟩ := hplain
    simp [skipString, hback, Nat.not_lt.mpr hlow, ih]
  | short he _ ih =>
    obtain ⟨hescape, hunit⟩ := escapedChar?_of_mem he
    simp [skipString, hunit, hescape, ih]
  | unit hquad _ ih =>
    obtain ⟨i, j, k, l, rfl, hread⟩ := hquad.cases
    simp [skipString, hread, ih]

/-- A string that is read can be passed over. -/
theorem skipString_of_stringBody {cs : List Char} (h : stringBody cs = .ok (s, rest)) :
    skipString cs = .ok rest := by
  fun_induction stringBody cs generalizing s rest <;> simp_all [skipString]

/-- The text of a string is one that can be passed over. -/
theorem IsBody.isLoose (h : IsBody s body) : IsLoose body := by
  induction h with
  | nil => exact .nil
  | cons hc _ ih =>
    cases hc with
    | plain hplain => exact .plain hplain ih
    | short he => exact .short he ih
    | unit hquad => exact .unit hquad ih
    | pair _ hhigh hlow =>
      rw [List.cons_append, List.cons_append, List.append_assoc]
      exact .unit hhigh (.unit hlow ih)

end

theorem IsText.isLooseText {s : String} {cs : List Char} (h : IsText s cs) : IsLooseText cs := by
  obtain ⟨body, hbody, hcs⟩ := h
  exact ⟨body, hbody.isLoose, hcs⟩

end RetentionJobs.Json
