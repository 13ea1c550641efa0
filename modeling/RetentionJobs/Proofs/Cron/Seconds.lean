import RetentionJobs.Proofs.Cron.Spacing
/-! Asking for a second in front. It is put before five words only, and as the grammar is asked about
five words with it anyway, the same expressions are accepted with and without it. -/
namespace RetentionJobs.Cron
open RetentionJobs.Text

theorem withSecond_eq {forced : Bool} {ws : List (List Char)} (h : forced → ws.length ≠ 5) :
    withSecond forced ws = ws :=
  if_neg fun hfive => h hfive.1 hfive.2

theorem length_withSecond {ws : List (List Char)} (h : ws.length = 5 ∨ ws.length = 6) :
    (withSecond true ws).length = 6 := by
  obtain h | h := h <;> simp [withSecond, h]

section
variable {forced again : Bool} {e n : String}

theorem length_words_of_normalizeWith (h : normalizeWith forced e = .ok n) :
    (words e.toList).length = 5 ∨ (words e.toList).length = 6 :=
  (checkWords_eq_ok_iff.mp (normalizeWith_eq_ok_iff.mp h).1).1

theorem words_of_normalizeWith (h : normalizeWith forced e = .ok n) :
    words n.toList = withSecond forced (words e.toList) := by
  obtain ⟨_, rfl⟩ := normalizeWith_eq_ok_iff.mp h
  rw [String.toList_ofList, words_join (isWord_of_mem_withSecond fun _ => isWord_of_mem_words)]

/-- A normal form is its own normal form, with a second if it was made with one. -/
theorem normalizeWith_of_normalizeWith (h : normalizeWith forced e = .ok n) (hagain : again → forced) :
    normalizeWith again n = .ok n := by
  have hwords := words_of_normalizeWith h
  have hsame : withSecond again (withSecond forced (words e.toList)) =
      withSecond forced (words e.toList) := by
    refine withSecond_eq fun htrue => ?_
    rw [hagain htrue, length_withSecond (length_words_of_normalizeWith h)]
    decide
  obtain ⟨hcheck, hn⟩ := normalizeWith_eq_ok_iff.mp h
  refine normalizeWith_eq_ok_iff.mpr ⟨?_, ?_⟩
  · rw [hwords, checkWords_withSecond, hcheck]
  · rw [hwords, hsame, hn]

end

/-- Asking for a second never changes the verdict or the error. In front of an accepted expression of
five words it puts `0 `, and one of six words it leaves alone, so that there are six words
afterwards. Both forms are normal forms, and the one with the second keeps it. -/
theorem normalizeWith_forced (e : String) :
    (∃ r, normalizeWith true e = .error r ∧ normalizeWith false e = .error r) ∨
    ∃ forced kept, normalizeWith true e = .ok forced ∧ normalizeWith false e = .ok kept ∧
      (words forced.toList).length = 6 ∧
      ((words e.toList).length = 5 ∧ forced = "0 " ++ kept ∨
        (words e.toList).length = 6 ∧ forced = kept) ∧
      normalizeWith false kept = .ok kept ∧ normalizeWith false forced = .ok forced ∧
      normalizeWith true forced = .ok forced := by
  cases hforced : normalizeWith true e with
  | error r =>
    exact .inl ⟨r, rfl, normalizeWith_eq_error_iff.mpr (normalizeWith_eq_error_iff.mp hforced)⟩
  | ok forced =>
    obtain ⟨hcheck, hjoin⟩ := normalizeWith_eq_ok_iff.mp hforced
    have hlength := length_words_of_normalizeWith hforced
    have hkept : normalizeWith false e = .ok (spaced e) :=
      normalizeWith_eq_ok_iff.mpr ⟨hcheck, rfl⟩
    refine .inr ⟨forced, spaced e, rfl, hkept, ?_, ?_, ?_, ?_, ?_⟩
    · rw [words_of_normalizeWith hforced, length_withSecond hlength]
    · refine hlength.imp (fun hfive => ⟨hfive, ?_⟩) (fun hsix => ⟨hsix, ?_⟩)
      · have hne : words e.toList ≠ [] := List.ne_nil_of_length_eq_add_one hfive
        rw [hjoin, withSecond, if_pos ⟨rfl, hfive⟩, join_cons_of_ne_nil hne, ← String.toList_inj]
        simp [spaced]
      · rw [hjoin, withSecond_eq (fun _ => by omega), spaced]
    · exact normalizeWith_of_normalizeWith hkept id
    · exact normalizeWith_of_normalizeWith hforced fun hfalse => absurd hfalse Bool.false_ne_true
    · exact normalizeWith_of_normalizeWith hforced id

/-- The minute `**` is read as two fields, and so the verdict is the same with and without a second. -/
example : (normalizeWith true "** * *  * *", normalizeWith false "** * *  * *") =
    (.ok "0 ** * * * *", .ok "** * * * *") := by decide +kernel

end RetentionJobs.Cron
