import Mathlib.Data.List.Basic
import RetentionJobs.Text.Decimal
/-! Reading the digits that are written for a number gives the number back. No digit is a letter. -/
namespace RetentionJobs.Text

theorem digitsValue_append (cs : List Char) (c : Char) :
    digitsValue (cs ++ [c]) = digitsValue cs * 10 + (c.toNat - 48) := by
  simp [digitsValue]

/-- The character of a digit is one, and has the digit's value. -/
theorem digitChar_spec {d : Nat} (h : d < 10) :
    (Char.ofNat (48 + d)).isDigit ∧ (Char.ofNat (48 + d)).toNat - 48 = d := by
  decide +revert

/-- The letters by their code points. -/
theorem isAlpha_iff {c : Char} :
    c.isAlpha ↔ (65 ≤ c.toNat ∧ c.toNat ≤ 90) ∨ (97 ≤ c.toNat ∧ c.toNat ≤ 122) := by
  have hupper : c.isUpper = decide (65 ≤ c.toNat ∧ c.toNat ≤ 90) := rfl
  have hlower : c.isLower = (decide (97 ≤ c.toNat) && decide (c.toNat ≤ 122)) := rfl
  have halpha : c.isAlpha = (c.isUpper || c.isLower) := rfl
  simp [halpha, hupper, hlower]

theorem isAlpha_eq_false_of_isDigit {c : Char} (h : c.isDigit) : c.isAlpha = false := by
  obtain ⟨_, hnine⟩ := Char.isDigit_iff_toNat.mp h
  by_contra halpha
  have halpha := isAlpha_iff.mp ((Bool.not_eq_false _).mp halpha)
  simp only [Char.reduceToNat] at hnine
  omega

theorem isDigit_eq_false_of_isAlpha {c : Char} (h : c.isAlpha) : c.isDigit = false := by
  by_contra hdigit
  simp [isAlpha_eq_false_of_isDigit ((Bool.not_eq_false _).mp hdigit)] at h

theorem isAlpha_of_toLower {c : Char} (h : c.toLower.isAlpha) : c.isAlpha := by
  by_cases hupper : c.val ≥ 65 ∧ c.val ≤ 90
  · exact isAlpha_iff.mpr (.inl hupper)
  · have hlower : c.toLower = c := dif_neg hupper
    rwa [hlower] at h

theorem digits_ne_nil (n : Nat) : digits n ≠ [] := by
  unfold digits
  split <;> simp

theorem isDigit_of_mem_digits {n : Nat} {c : Char} (h : c ∈ digits n) : c.isDigit := by
  fun_induction digits n with
  | case1 n hn =>
    obtain rfl := List.mem_singleton.mp h
    exact (digitChar_spec hn).1
  | case2 n hn ih =>
    obtain h | h := List.mem_append.mp h
    · exact ih h
    · obtain rfl := List.mem_singleton.mp h
      exact (digitChar_spec (Nat.mod_lt n (by decide))).1

theorem digitsValue_digits (n : Nat) : digitsValue (digits n) = n := by
  fun_induction digits n with
  | case1 n hn => simpa [digitsValue] using (digitChar_spec hn).2
  | case2 n hn ih =>
    rw [digitsValue_append, ih, (digitChar_spec (Nat.mod_lt n (by decide))).2]
    omega

theorem digits_injective : Function.Injective digits := by
  intro a b h
  rw [← digitsValue_digits a, h, digitsValue_digits]

theorem digits_eq_toDigits (n : Nat) : digits n = Nat.toDigits 10 n := by
  have hchar : ∀ d < 10, Char.ofNat (48 + d) = d.digitChar := by decide
  fun_induction digits n with
  | case1 n hn => rw [Nat.toDigits_of_lt_base hn, hchar n hn]
  | case2 n hn ih =>
    have hsplit : Nat.toDigits 10 n = Nat.toDigits 10 (n / 10) ++ [(n % 10).digitChar] :=
      (Nat.toDigits_eq_if (by decide)).trans (if_neg hn)
    rw [ih, hchar (n % 10) (Nat.mod_lt n (by decide)), hsplit]

theorem natText_eq_toString (n : Nat) : natText n = toString n :=
  congrArg String.ofList (digits_eq_toDigits n)

/-- No zero stands in front of another digit. -/
theorem eq_nil_of_digits {n : Nat} {cs : List Char} (h : digits n = '0' :: cs) : cs = [] := by
  fun_induction digits n generalizing cs with
  | case1 n hn => exact (List.cons.inj h).2.symm
  | case2 n hn ih =>
    obtain ⟨c, front, hfront⟩ := List.exists_cons_of_ne_nil (digits_ne_nil (n / 10))
    rw [hfront, List.cons_append] at h
    obtain ⟨rfl, -⟩ := List.cons.inj h
    obtain rfl := ih hfront
    have hvalue := digitsValue_digits (n / 10)
    rw [hfront] at hvalue
    have hzero : digitsValue ['0'] = 0 := rfl
    omega

theorem readDigits?_digits (n : Nat) : readDigits? (digits n) = some n := by
  have hall : (digits n).all Char.isDigit :=
    List.all_eq_true.mpr (fun _ h => isDigit_of_mem_digits h)
  rw [readDigits?, if_pos ⟨digits_ne_nil n, hall⟩, digitsValue_digits]

theorem readUnsigned?_digits (n : Nat) : readUnsigned? (digits n) = some n := by
  unfold readUnsigned?
  split
  · rename_i cs h
    have hplus : ('+' : Char).isDigit := isDigit_of_mem_digits (n := n) (by simp [h])
    exact absurd hplus (by decide)
  · exact readDigits?_digits n

theorem isDigit_of_readDigits? {cs : List Char} {n : Nat} (h : readDigits? cs = some n) :
    cs ≠ [] ∧ ∀ c ∈ cs, c.isDigit := by
  unfold readDigits? at h
  split at h
  · rename_i hdigits
    exact ⟨hdigits.1, List.all_eq_true.mp hdigits.2⟩
  · cases h

theorem mem_of_readUnsigned? {cs : List Char} {n : Nat} (h : readUnsigned? cs = some n) {c : Char}
    (hc : c ∈ cs) : c = '+' ∨ c.isDigit := by
  unfold readUnsigned? at h
  split at h
  · obtain rfl | hc := List.mem_cons.mp hc
    · exact .inl rfl
    · exact .inr ((isDigit_of_readDigits? h).2 c hc)
  · exact .inr ((isDigit_of_readDigits? h).2 c hc)

theorem readUnsigned?_of_not_mem {cs : List Char} (h : '+' ∉ cs) :
    readUnsigned? cs = readDigits? cs := by
  unfold readUnsigned?
  split
  · exact absurd List.mem_cons_self h
  · rfl

theorem readUnsigned?_of_readDigits? {cs : List Char} {n : Nat} (h : readDigits? cs = some n) :
    readUnsigned? cs = some n := by
  have hplus : '+' ∉ cs := fun hc => absurd ((isDigit_of_readDigits? h).2 '+' hc) (by decide)
  rw [readUnsigned?_of_not_mem hplus, h]

theorem not_mem_decimal {n : Int} {c : Char} (hdigit : c.isDigit = false) (hminus : c ≠ '-') :
    c ∉ decimal n := by
  have hdigits : ∀ n : Nat, c ∉ digits n := by
    intro n hmem
    simp [isDigit_of_mem_digits hmem] at hdigit
  cases n with
  | ofNat n => exact hdigits n
  | negSucc n => simp [decimal, hminus, hdigits]

theorem readSigned?_decimal (n : Int) : readSigned? (decimal n) = some n := by
  cases n with
  | ofNat n =>
    unfold decimal readSigned?
    split
    · rename_i cs h
      have hminus : ('-' : Char).isDigit := isDigit_of_mem_digits (n := n) (by simp [h])
      exact absurd hminus (by decide)
    · rw [readUnsigned?_digits]
      rfl
  | negSucc n =>
    rw [decimal, readSigned?, readDigits?_digits]
    rfl

theorem decimal_injective : Function.Injective decimal := by
  intro m n h
  exact Option.some.inj (by rw [← readSigned?_decimal m, h, readSigned?_decimal])

end RetentionJobs.Text
