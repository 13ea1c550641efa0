import RetentionJobs.Proofs.Text.Decimal
import RetentionJobs.Proofs.Text.Words
import RetentionJobs.Proofs.Toml.Strings
/-! Numbers, booleans, strings and arrays of strings are read back before a character that belongs
to none of them. -/
namespace RetentionJobs.Toml
open RetentionJobs.Text

/-! ### Literals -/

theorem ungrouped?_digits (n : Nat) : ungrouped? Char.isDigit (digits n) = some (digits n) := by
  have hnone : '_' ∉ digits n := fun h => absurd (isDigit_of_mem_digits h) (by decide)
  have hcut := cut_of_not_mem hnone
  have hall : (digits n).all Char.isDigit :=
    List.all_eq_true.mpr fun _ h => isDigit_of_mem_digits h
  simp [ungrouped?, hcut, hall, digits_ne_nil]

theorem wholeDigits?_digits (n : Nat) : wholeDigits? (digits n) = some (digits n) := by
  rw [wholeDigits?, ungrouped?_digits]
  simp only [Option.bind_eq_bind, Option.bind_some]
  split
  · rename_i h
    cases eq_nil_of_digits h
  · rfl

theorem unsigned_digits (n : Nat) : unsigned (digits n) = (false, digits n) := by
  have hsign : ∀ c cs, digits n = c :: cs → c.isDigit := fun c cs h =>
    isDigit_of_mem_digits (h ▸ List.mem_cons_self)
  unfold unsigned
  split
  · rename_i h
    exact absurd (hsign _ _ h) (by decide)
  · rename_i h
    exact absurd (hsign _ _ h) (by decide)
  · rfl

theorem integer?_decimal (n : Int) : integer? (decimal n) = some n := by
  have hbase : ∀ c ds, decimal n ≠ '0' :: c :: ds := by
    intro c ds h
    cases n with
    | ofNat n => cases eq_nil_of_digits h
    | negSucc n => exact absurd (List.cons.inj h).1 (by decide)
  unfold integer?
  split
  · rename_i h
    exact absurd h (hbase _ _)
  · rename_i h
    exact absurd h (hbase _ _)
  · rename_i h
    exact absurd h (hbase _ _)
  · cases n with
    | ofNat n =>
      simp only [decimal, unsigned_digits, wholeDigits?_digits, Option.bind_eq_bind,
        Option.bind_some, digitsValue_digits]
      rfl
    | negSucc n =>
      simp only [decimal, unsigned, wholeDigits?_digits, Option.bind_eq_bind, Option.bind_some,
        digitsValue_digits]
      rfl

theorem literal?_decimal (n : Int) : literal? (decimal n) = some (.integer n) := by
  have hletter : ∀ c ∈ decimal n, c.isDigit = false → c = '-' := fun c hc hdigit => by
    by_contra hminus
    exact not_mem_decimal hdigit hminus hc
  have htrue : decimal n ≠ ['t', 'r', 'u', 'e'] := fun h =>
    absurd (hletter 't' (by rw [h]; decide) rfl) (by decide)
  have hfalse : decimal n ≠ ['f', 'a', 'l', 's', 'e'] := fun h =>
    absurd (hletter 'f' (by rw [h]; decide) rfl) (by decide)
  rw [literal?, if_neg htrue, if_neg hfalse, integer?_decimal]

/-- What may follow a value: the end of its line, or the next item or the end of an array. -/
def Closes (rest : List Char) : Prop :=
  ∃ c more, rest = c :: more ∧ (c = '\n' ∨ c = ',' ∨ c = ']')

theorem literal_append {front rest : List Char} {v : Value} (hfront : ∀ c ∈ front, isLiteral c)
    (hrest : Closes rest) (h : literal? front = some v) :
    literal (front ++ rest) = some (v, rest) := by
  obtain ⟨c, more, rfl, hc⟩ := hrest
  have hends : isLiteral c = false ∧ c ≠ ' ' := by
    obtain rfl | rfl | rfl := hc <;> decide
  have htake : (front ++ c :: more).takeWhile isLiteral = front := by
    rw [List.takeWhile_append_of_pos hfront, List.takeWhile_cons_of_neg (by simp [hends.1]),
      List.append_nil]
  have hdrop : (front ++ c :: more).dropWhile isLiteral = c :: more := by
    rw [List.dropWhile_append_of_pos hfront, List.dropWhile_cons_of_neg (by simp [hends.1])]
  unfold literal
  simp only [htake, hdrop]
  split
  · rename_i heq
    exact absurd (List.cons.inj heq).1 hends.2
  · rw [h]
    rfl

theorem isLiteral_of_mem_decimal {n : Int} {c : Char} (h : c ∈ decimal n) : isLiteral c := by
  by_cases hdigit : c.isDigit
  · simp [isLiteral, Char.isAlphanum, hdigit]
  · obtain rfl : c = '-' := by
      by_contra hminus
      exact not_mem_decimal (by simpa using hdigit) hminus h
    rfl

/-! ### Values -/

/-- A text that is read as a value. No spaces stand in front of it. -/
structure ReadsAs (text : List Char) (v : Value) : Prop where
  skipSpace (rest : List Char) : skipSpace (text ++ rest) = text ++ rest
  read {rest : List Char} (h : Closes rest) : value (text ++ rest) = some (v, rest)

theorem skipSpace_cons {c : Char} (h : isSpace c = false) (cs : List Char) :
    skipSpace (c :: cs) = c :: cs := List.dropWhile_cons_of_neg (by simp [h])

theorem readsAs_literal {c : Char} {cs : List Char} {v : Value} (hlit : (c :: cs).all isLiteral)
    (h : literal? (c :: cs) = some v) : ReadsAs (c :: cs) v := by
  have hlit := List.all_eq_true.mp hlit
  have hother : ∀ {d}, isLiteral d = false → c ≠ d := by
    rintro _ hd rfl
    rw [hlit c List.mem_cons_self] at hd
    cases hd
  have hspace : isSpace c = false := by
    simp [isSpace, hother (d := ' ') rfl, hother (d := '\t') rfl]
  refine ⟨fun rest => skipSpace_cons hspace _, fun {rest} hrest => ?_⟩
  rw [value, List.cons_append, valueWith]
  · rw [if_neg (not_or.mpr ⟨hother rfl, hother rfl⟩)]
    exact literal_append hlit hrest h
  · exact hother rfl
  · exact hother rfl

theorem readsAs_decimal (n : Int) : ReadsAs (decimal n) (.integer n) := by
  obtain ⟨c, cs, hcs⟩ : ∃ c cs, decimal n = c :: cs := by
    cases n with
    | ofNat n => exact List.exists_cons_of_ne_nil (digits_ne_nil n)
    | negSucc n => exact ⟨_, _, rfl⟩
  have h := literal?_decimal n
  have hlit : (decimal n).all isLiteral := List.all_eq_true.mpr fun _ => isLiteral_of_mem_decimal
  rw [hcs] at h hlit ⊢
  exact readsAs_literal hlit h

theorem readsAs_boolean (b : Bool) :
    ReadsAs (if b then "true" else "false").toList (.boolean b) := by
  cases b with
  | false => exact readsAs_literal rfl rfl
  | true => exact readsAs_literal rfl rfl

theorem valueWith_quoted (fuel : Nat) (s : String) {rest : List Char} (hrest : Closes rest) :
    valueWith (fuel + 1) (quoted s ++ rest) = some (.string s, rest) := by
  have hquotes : rest.head? ≠ some '"' ∧ rest.head? ≠ some '\x27' := by
    obtain ⟨c, more, rfl, rfl | rfl | rfl⟩ := hrest <;> exact ⟨by simp, by simp⟩
  have hstring := string_quoted s hquotes.1 hquotes.2
  obtain ⟨c, cs, hquoted, hc⟩ := quoted_eq_cons s
  rw [hquoted, List.cons_append] at hstring ⊢
  rw [valueWith]
  · rw [if_pos hc, hstring]
    rfl
  all_goals
    rintro rfl
    exact absurd hc (by decide)

theorem readsAs_quoted (s : String) : ReadsAs (quoted s) (.string s) where
  skipSpace rest := by
    obtain ⟨c, cs, hquoted, rfl | rfl⟩ := quoted_eq_cons s <;>
      rw [hquoted] <;> exact skipSpace_cons rfl _
  read hrest := valueWith_quoted _ s hrest

/-! ### Arrays of strings -/

theorem skipTrivia_quoted (s : String) (rest : List Char) :
    skipTrivia false (quoted s ++ rest) = some (quoted s ++ rest) := by
  obtain ⟨c, cs, hquoted, rfl | rfl⟩ := quoted_eq_cons s <;> rw [hquoted] <;> rfl

theorem quoted_append_ne (s : String) (rest more : List Char) :
    quoted s ++ rest ≠ ']' :: more := by
  obtain ⟨c, cs, hquoted, hc⟩ := quoted_eq_cons s
  rw [hquoted]
  intro h
  obtain ⟨rfl, _⟩ := List.cons.inj h
  exact absurd hc (by decide)

theorem itemsWith_last (fuel : Nat) (s : String) (rest : List Char) :
    itemsWith (fuel + 2) (quoted s ++ ']' :: rest) = some ([.string s], rest) := by
  have hread := valueWith_quoted fuel s ⟨']', rest, rfl, .inr (.inr rfl)⟩
  rw [itemsWith, hread]
  · rfl
  · exact quoted_append_ne s _

theorem itemsWith_comma {fuel : Nat} (s : String) {rest more : List Char} {vs : List Value}
    (h : (skipTrivia false rest).bind (itemsWith (fuel + 1)) = some (vs, more)) :
    itemsWith (fuel + 2) (quoted s ++ ',' :: rest) = some (.string s :: vs, more) := by
  have hread := valueWith_quoted fuel s ⟨',', rest, rfl, .inr (.inl rfl)⟩
  have hcomma : skipTrivia false (',' :: rest) = some (',' :: rest) := rfl
  obtain ⟨next, hnext, hitems⟩ := Option.bind_eq_some_iff.mp h
  rw [itemsWith, hread]
  · simp only [Option.bind_eq_bind, Option.bind_some, hcomma, hnext, hitems, Option.pure_def]
  · exact quoted_append_ne s _

/-- The lines of an array's items, and its closing bracket. -/
def itemLines (ss : List String) (rest : List Char) : List Char :=
  ss.flatMap (fun s => [' ', ' ', ' ', ' '] ++ quoted s ++ [',', '\n']) ++ ']' :: rest

theorem skipTrivia_itemLines (s : String) (ss : List String) (rest : List Char) :
    skipTrivia false (itemLines (s :: ss) rest) =
      some (quoted s ++ ',' :: '\n' :: itemLines ss rest) := by
  have hlines : itemLines (s :: ss) rest =
      ' ' :: ' ' :: ' ' :: ' ' :: (quoted s ++ ',' :: '\n' :: itemLines ss rest) := by
    simp [itemLines]
  rw [hlines]
  exact skipTrivia_quoted s _

theorem itemsWith_itemLines {fuel : Nat} {ss : List String} (h : ss.length ≤ fuel)
    (rest : List Char) :
    (skipTrivia false (itemLines ss rest)).bind (itemsWith (fuel + 1)) =
      some (ss.map .string, rest) := by
  induction ss generalizing fuel with
  | nil => rfl
  | cons s ss ih =>
    obtain ⟨fuel, rfl⟩ : ∃ f, fuel = f + 1 := ⟨fuel - 1, by rw [List.length_cons] at h; omega⟩
    rw [skipTrivia_itemLines, Option.bind_some]
    exact itemsWith_comma s (ih (Nat.le_of_succ_le_succ h))

theorem length_le_itemLines (ss : List String) (rest : List Char) :
    ss.length ≤ (itemLines ss rest).length := by
  induction ss with
  | nil => exact Nat.zero_le _
  | cons s ss ih =>
    simp only [itemLines, List.flatMap_cons, List.length_append, List.length_cons] at ih ⊢
    omega

theorem valueWith_array {fuel : Nat} {cs more : List Char} {vs : List Value}
    (h : (skipTrivia false cs).bind (itemsWith fuel) = some (vs, more)) :
    valueWith (fuel + 1) ('[' :: cs) = some (.array vs, more) := by
  obtain ⟨next, hnext, hitems⟩ := Option.bind_eq_some_iff.mp h
  rw [valueWith]
  simp only [Option.bind_eq_bind, hnext, Option.bind_some, hitems, Option.pure_def]

theorem readsAs_quotedArray (ss : List String) :
    ReadsAs (quotedArray ss) (.array (ss.map .string)) := by
  have hbracket : ∃ cs, quotedArray ss = '[' :: cs := by
    unfold quotedArray
    split <;> exact ⟨_, rfl⟩
  refine ⟨fun rest => ?_, fun {rest} _ => ?_⟩
  · obtain ⟨cs, hcs⟩ := hbracket
    rw [hcs]
    exact skipSpace_cons rfl _
  · match ss with
    | [] => exact valueWith_array rfl
    | [s] =>
      have htext : quotedArray [s] ++ rest = '[' :: (quoted s ++ ']' :: rest) := by
        simp [quotedArray]
      rw [htext, value]
      refine valueWith_array ?_
      rw [skipTrivia_quoted, Option.bind_some]
      exact itemsWith_last _ s rest
    | s :: s' :: ss =>
      have htext : quotedArray (s :: s' :: ss) ++ rest =
          '[' :: '\n' :: itemLines (s :: s' :: ss) rest := by
        simp [quotedArray, itemLines]
      rw [htext, value]
      refine valueWith_array (itemsWith_itemLines ?_ rest)
      have hlength := length_le_itemLines (s :: s' :: ss) rest
      simp only [List.length_cons] at hlength ⊢
      omega

end RetentionJobs.Toml
