import RetentionJobs.Proofs.Cron.Alphabet
/-! An accepted expression is read into its words, and its normal form is those words with single
spaces between them. -/
namespace RetentionJobs.Cron
open RetentionJobs.Text RetentionJobs.Outcome

/-- Words with second 0 in front, if there are five of them and a second is asked for. -/
def withSecond (forced : Bool) (ws : List (List Char)) : List (List Char) :=
  if forced ∧ ws.length = 5 then ['0'] :: ws else ws

theorem isWord_of_mem_withSecond {forced : Bool} {ws : List (List Char)} (h : ∀ w ∈ ws, IsWord w) :
    ∀ w ∈ withSecond forced ws, IsWord w := by
  have hzero : IsWord ['0'] := ⟨List.cons_ne_nil _ _, List.forall_mem_singleton.mpr rfl⟩
  unfold withSecond
  split
  · exact List.forall_mem_cons.mpr ⟨hzero, h⟩
  · exact h

/-- The grammar is asked about five words with second 0 in front, so putting it there changes
nothing. -/
theorem checkWords_withSecond (forced : Bool) (ws : List (List Char)) :
    checkWords (withSecond forced ws) = checkWords ws := by
  unfold withSecond
  split
  · rename_i h
    have hline : lineOf (['0'] :: ws) = lineOf ws := by simp [lineOf, h.2]
    simp [checkWords, hline, h.2]
  · rfl

namespace Schedule

theorem ofWords?_isSome {ws : List (List Char)} (h : ws.length = 5 ∨ ws.length = 6) :
    ∃ s, ofWords? ws = some s := by
  match ws, h with
  | [_, _, _, _, _], _ => exact ⟨_, rfl⟩
  | [_, _, _, _, _, _], _ => exact ⟨_, rfl⟩

/-- A schedule of words gives the words back, a second exactly when there are six. -/
theorem values_of_ofWords? {ws : List (List Char)} {s : Schedule} (hws : ∀ w ∈ ws, IsWord w)
    (h : ofWords? ws = some s) : s.values s.second.isSome = ws := by
  have hfield : ∀ w fallback, IsWord w → fieldOr (some (.ofList w)) fallback = w := by
    intro w fallback hw
    unfold fieldOr
    rw [Option.map_some, String.toList_ofList, trim_of_isWord hw]
    split
    · simp_all
    · rename_i hnil
      exact absurd (Option.some.inj hnil) hw.1
    · rename_i hsome
      exact (Option.some.inj hsome).symm
  unfold ofWords? at h
  split at h
  · obtain rfl := Option.some.inj h
    simp_all [values]
  · obtain rfl := Option.some.inj h
    simp_all [values, effectiveSecond]
  · simp at h

theorem parse_eq_ok_iff {e : String} {s : Schedule} :
    parse e = .ok s ↔
      checkWords (words e.toList) = .ok () ∧ ofWords? (words e.toList) = some s := by
  unfold parse
  cases hcheck : checkWords (words e.toList) with
  | error r => simp [hcheck]
  | ok u =>
    obtain ⟨s', hs'⟩ := ofWords?_isSome (checkWords_eq_ok_iff.mp hcheck).1
    simp [hcheck, hs']

theorem parse_eq_error_iff {e : String} {r : Refusal} :
    parse e = .error r ↔ checkWords (words e.toList) = .error r := by
  unfold parse
  cases hcheck : checkWords (words e.toList) with
  | error r' => simp [hcheck]
  | ok u =>
    obtain ⟨s, hs⟩ := ofWords?_isSome (checkWords_eq_ok_iff.mp hcheck).1
    simp [hcheck, hs]

/-- The values that are written with a second are the words, with the default second in front of
five of them. -/
theorem values_or_isSome {ws : List (List Char)} {s : Schedule} (hws : ∀ w ∈ ws, IsWord w)
    (h : ofWords? ws = some s) (forced : Bool) :
    s.values (forced || s.second.isSome) = withSecond forced ws := by
  have hvalues := values_of_ofWords? hws h
  unfold ofWords? at h
  split at h
  · obtain rfl := Option.some.inj h
    cases forced with
    | false => exact hvalues
    | true => exact congrArg (['0'] :: ·) hvalues
  · obtain rfl := Option.some.inj h
    rw [← hvalues]
    cases forced <;> rfl
  · cases h

/-- Joining the words of a schedule is accepted when the words are, and so it is with a second. -/
theorem format_of_ofWords? {ws : List (List Char)} {s : Schedule} (hws : ∀ w ∈ ws, IsWord w)
    (h : ofWords? ws = some s) (hcheck : checkWords ws = .ok ()) (forced : Bool) :
    s.format (forced || s.second.isSome) = .ok (.ofList (join [' '] (withSecond forced ws))) := by
  have hvalues := values_or_isSome hws h forced
  have hjoined : s.joined (forced || s.second.isSome) = join [' '] (withSecond forced ws) := by
    rw [joined, hvalues]
  have hlen : (withSecond forced ws).length = if forced || s.second.isSome then 6 else 5 := by
    rw [← hvalues]
    cases forced || s.second.isSome <;> rfl
  unfold format
  rw [hjoined, words_join (isWord_of_mem_withSecond hws), if_neg (not_not.mpr hlen),
    checkWords_withSecond, hcheck, render, hjoined]

end Schedule

/-- The normal form of an accepted expression is its words with single spaces between them. A second
is put in front of five words if it is asked for. -/
theorem normalizeWith_eq_ok_iff {forced : Bool} {e n : String} :
    normalizeWith forced e = .ok n ↔ checkWords (words e.toList) = .ok () ∧
      n = .ofList (join [' '] (withSecond forced (words e.toList))) := by
  have hws : ∀ w ∈ words e.toList, IsWord w := fun _ => isWord_of_mem_words
  unfold normalizeWith parse
  cases hparse : Schedule.parse e with
  | error r =>
    have hcheck : checkWords (words e.toList) ≠ .ok () := by
      intro hcheck
      obtain ⟨s, hs⟩ := Schedule.ofWords?_isSome (checkWords_eq_ok_iff.mp hcheck).1
      rw [Schedule.parse_eq_ok_iff.mpr ⟨hcheck, hs⟩] at hparse
      cases hparse
    simp [Except.mapError, hcheck]
  | ok s =>
    obtain ⟨hcheck, hs⟩ := Schedule.parse_eq_ok_iff.mp hparse
    simp [Except.mapError, format, Schedule.format_of_ofWords? hws hs hcheck, hcheck, eq_comm]

/-- Only reading can fail, so a second that is asked for changes no error. -/
theorem normalizeWith_eq_error_iff {forced : Bool} {e : String} {r : Rejection} :
    normalizeWith forced e = .error r ↔ parse e = .error r := by
  cases hparse : parse e with
  | error r' => simp [normalizeWith, hparse]
  | ok s =>
    have hcheck := (Schedule.parse_eq_ok_iff.mp (mapError_eq_ok_iff.mp hparse)).1
    simp [normalizeWith_eq_ok_iff.mpr ⟨hcheck, rfl⟩]

theorem normalize_eq_ok_iff_words {e n : String} :
    normalize e = .ok n ↔
      checkWords (words e.toList) = .ok () ∧ n = .ofList (join [' '] (words e.toList)) :=
  normalizeWith_eq_ok_iff

theorem normalize_of_parse {e : String} {s : Schedule} (h : Schedule.parse e = .ok s) :
    normalize e = .ok (.ofList (join [' '] (words e.toList))) :=
  normalize_eq_ok_iff_words.mpr ⟨(Schedule.parse_eq_ok_iff.mp h).1, rfl⟩

end RetentionJobs.Cron
