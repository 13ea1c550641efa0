import RetentionJobs.Proofs.Cron.WeekdayRules
/-! A text is accepted as weekdays when it follows the rules that renumbering makes of the
grammar's, or when a year is left behind such a text. Without a sign, a year, and a range over the
end of the week these are the rules of a crontab. -/
namespace RetentionJobs.Cron
open RetentionJobs.Text Grammar

namespace Weekday

section
variable {cs first last suffix : List Char} {m n : Nat}

theorem grammar_isDay_digits : grammarRules.IsDay (digits m) n ↔ n = m ∧ 1 ≤ m ∧ m ≤ 7 := by
  have hread : grammarRules.read (digits m) = some m := readDigits?_digits m
  unfold Rules.IsDay
  rw [hread]
  constructor
  · rintro ⟨hn, hbounds⟩
    obtain rfl := Option.some.inj hn
    exact ⟨rfl, hbounds⟩
  · rintro ⟨rfl, hbounds⟩
    exact ⟨rfl, hbounds⟩

/-- A day is renumbered, and everything else is kept. -/
theorem renumberDay_cases (cs : List Char) :
    (∃ n, acceptedRules.IsDay cs n ∧ renumberDay cs = digits (shiftDay n)) ∨
      ((∀ n, ¬ acceptedRules.IsDay cs n) ∧ renumberDay cs = cs) := by
  by_cases h : ∃ n, acceptedRules.IsDay cs n
  · obtain ⟨n, hn⟩ := h
    exact .inl ⟨n, hn, renumberDay_of_read hn.1 hn.2.2⟩
  · rw [not_exists] at h
    refine .inr ⟨h, renumberDay_of_no_day fun n hread => ?_⟩
    by_contra hle
    exact h n ⟨hread, Nat.zero_le n, Nat.le_of_not_lt hle⟩

theorem renumberDay_isDay_iff : grammarRules.IsDay (renumberDay cs) m ↔
    ∃ n, acceptedRules.IsDay cs n ∧ m = shiftDay n := by
  obtain ⟨n, hn, hday⟩ | ⟨hno, hsame⟩ := renumberDay_cases cs
  · have honly : ∀ k, acceptedRules.IsDay cs k → k = n := fun k hk =>
      Option.some.inj (hk.1.symm.trans hn.1)
    rw [hday, grammar_isDay_digits]
    constructor
    · rintro ⟨rfl, _⟩
      exact ⟨n, hn, rfl⟩
    · rintro ⟨k, hk, rfl⟩
      rw [honly k hk]
      exact ⟨rfl, shiftDay_bounds hn.2.2⟩
  · rw [hsame]
    constructor
    · intro h
      exact absurd ⟨readUnsigned?_of_readDigits? h.1, Nat.zero_le m, h.2.2⟩ (hno m)
    · rintro ⟨n, hn, _⟩
      exact absurd hn (hno n)

/-- No text that begins like neither a number nor a sign comes or goes. -/
theorem renumberDay_eq_iff {text : List Char}
    (h : ∃ c ∈ text, c ≠ '+' ∧ c.isDigit = false) : renumberDay cs = text ↔ cs = text := by
  obtain ⟨c, hc, hplus, hdigit⟩ := h
  obtain ⟨n, hn, hday⟩ | ⟨_, hsame⟩ := renumberDay_cases cs
  · constructor
    · intro htext
      rw [← htext, hday] at hc
      simp [isDigit_of_mem_digits hc] at hdigit
    · rintro rfl
      exact absurd hc (hn.not_mem hplus hdigit)
  · rw [hsame]

theorem renumberDay_isDayName_iff : IsDayName (renumberDay cs) n ↔ IsDayName cs n := by
  constructor
  · intro h
    rwa [(renumberDay_eq_iff h.exists_other).mp rfl]
  · intro h
    rwa [(renumberDay_eq_iff h.exists_other).mpr rfl]

theorem not_mem_renumberDay {c : Char} (hdigit : c.isDigit = false) (h : c ∉ cs) :
    c ∉ renumberDay cs := by
  obtain ⟨n, _, hday⟩ | ⟨_, hsame⟩ := renumberDay_cases cs
  · intro hc
    simp [isDigit_of_mem_digits (hday ▸ hc)] at hdigit
  · rwa [hsame]

theorem renumberDay_isDays_iff (h : '-' ∉ cs) :
    grammarRules.IsDays (renumberDay cs) ↔ acceptedRules.IsDays cs := by
  rw [Rules.isDays_iff_of_not_mem (not_mem_renumberDay rfl h), Rules.isDays_iff_of_not_mem h,
    renumberDay_eq_iff ⟨'*', by simp⟩, renumberDay_eq_iff ⟨'?', by simp⟩]
  refine or_congr_right (or_congr_right ?_)
  constructor
  · rintro ⟨m, hm⟩
    obtain ⟨n, hn, _⟩ := renumberDay_isDay_iff.mp hm
    exact ⟨n, hn⟩
  · rintro ⟨n, hn⟩
    exact ⟨shiftDay n, renumberDay_isDay_iff.mpr ⟨n, hn, rfl⟩⟩

/-- The last day of a range. It is kept when it is written `7`. -/
def renumberEnd (last : List Char) : List Char := if last = ['7'] then ['7'] else renumberDay last

theorem renumberEnd_isDay_iff :
    (∃ a b, grammarRules.IsDay (renumberDay first) a ∧ grammarRules.IsDay (renumberEnd last) b ∧
        a ≤ b) ↔
      ∃ a b, acceptedRules.IsDay first a ∧ acceptedRules.IsDay last b ∧
        (last = ['7'] ∨ a % 7 ≤ b % 7) := by
  unfold renumberEnd
  by_cases hseven : last = ['7']
  · subst hseven
    constructor
    · rintro ⟨a, _, ha, _⟩
      obtain ⟨n, hn, _⟩ := renumberDay_isDay_iff.mp ha
      exact ⟨n, 7, hn, ⟨rfl, by decide⟩, .inl rfl⟩
    · rintro ⟨a, _, ha, _⟩
      exact ⟨shiftDay a, 7, renumberDay_isDay_iff.mpr ⟨a, ha, rfl⟩, ⟨rfl, by decide⟩,
        (shiftDay_bounds ha.2.2).2⟩
  · have hle : ∀ {a b}, a ≤ 7 → b ≤ 7 → (shiftDay a ≤ shiftDay b ↔ a % 7 ≤ b % 7) := by
      intro a b ha hb
      unfold shiftDay
      split_ifs <;> omega
    rw [if_neg hseven]
    simp only [renumberDay_isDay_iff, hseven, false_or]
    constructor
    · rintro ⟨_, _, ⟨a, ha, rfl⟩, ⟨b, hb, rfl⟩, hab⟩
      exact ⟨a, b, ha, hb, (hle ha.2.2 hb.2.2).mp hab⟩
    · rintro ⟨a, b, ha, hb, hab⟩
      exact ⟨_, _, ⟨a, ha, rfl⟩, ⟨b, hb, rfl⟩, (hle ha.2.2 hb.2.2).mpr hab⟩

theorem renumberEnd_isDayName_iff : IsDayName (renumberEnd last) n ↔ IsDayName last n := by
  unfold renumberEnd
  split_ifs with hseven
  · rw [hseven]
  · exact renumberDay_isDayName_iff

/-- A range with both ends renumbered. -/
theorem renumberEnd_isDays_iff (h : '-' ∉ first) :
    grammarRules.IsDays (renumberDay first ++ '-' :: renumberEnd last) ↔
      acceptedRules.IsDays (first ++ '-' :: last) := by
  rw [Rules.isDays_append_iff (not_mem_renumberDay rfl h), Rules.isDays_append_iff h]
  simp only [renumberDay_isDayName_iff, renumberEnd_isDayName_iff]
  exact or_congr_left renumberEnd_isDay_iff

/-- A range becomes one range, or one up to Saturday and Sunday besides. -/
theorem renumberRange_cases (first last : List Char) :
    renumberRange first last = renumberDay first ++ '-' :: renumberEnd last ∨
      renumberRange first last = renumberDay first ++ '-' :: renumberEnd last ++ [',', '1'] := by
  unfold renumberRange renumberEnd
  split_ifs with hseven hsunday
  · rw [hsunday]
    exact .inl rfl
  · exact .inr (by simp)
  · exact .inl rfl

theorem exists_suffix (item : List Char) : ∃ days suffix, item = days ++ suffix ∧ '/' ∉ days ∧
    IsSuffix suffix ∧ renumberItem item = renumberDays days ++ suffix := by
  by_cases h : '/' ∈ item
  · obtain ⟨days, step, rfl, hdays⟩ := List.eq_append_cons_of_mem h
    refine ⟨days, '/' :: step, rfl, hdays, by simp [IsSuffix], ?_⟩
    rw [renumberItem, splitFirst_append hdays]
  · refine ⟨item, [], by simp, h, by simp [IsSuffix], ?_⟩
    rw [renumberItem, splitFirst_of_not_mem h, List.append_nil]

theorem not_mem_renumberEnd {c : Char} (hdigit : c.isDigit = false) (h : c ∉ last) :
    c ∉ renumberEnd last := by
  unfold renumberEnd
  split_ifs with hseven
  · rwa [hseven] at h
  · exact not_mem_renumberDay hdigit h

/-- Sunday, with what stands behind it. -/
theorem isItem_sunday_iff (hsuffix : IsSuffix suffix) :
    grammarRules.IsItem ('1' :: suffix) ↔ IsStep suffix := by
  have hsunday : grammarRules.IsDays ['1'] := .day ⟨(rfl : _ = some 1), by decide⟩
  have hname : ¬ ∃ n, IsDayName ['1'] n := by
    rintro ⟨n, hn⟩
    exact hn.not_mem (c := '1') rfl List.mem_cons_self
  rw [← List.singleton_append, Rules.isItem_append_iff (by decide) hsuffix]
  simp [hsunday, hname]

/-- The parts of a renumbered range are accepted by the grammar when the range follows the rules. -/
theorem renumberRange_isItem_iff (hfirst : '-' ∉ first) (hslash : '/' ∉ first ++ '-' :: last)
    (hcomma : ',' ∉ first ++ '-' :: (last ++ suffix)) (hsuffix : IsSuffix suffix) :
    (∀ part ∈ cut (· == ',') (renumberRange first last ++ suffix), grammarRules.IsItem part) ↔
      acceptedRules.IsDays (first ++ '-' :: last) ∧ IsStep suffix := by
  obtain ⟨hslash, hslash'⟩ : '/' ∉ first ∧ '/' ∉ last := by simpa using hslash
  obtain ⟨hcomma, hcomma', hcomma''⟩ : ',' ∉ first ∧ ',' ∉ last ∧ ',' ∉ suffix := by
    simpa using hcomma
  have hslash : '/' ∉ renumberDay first ++ '-' :: renumberEnd last := by
    simp [not_mem_renumberDay (c := '/') rfl hslash, not_mem_renumberEnd (c := '/') rfl hslash']
  have hcomma : ',' ∉ renumberDay first ++ '-' :: renumberEnd last := by
    simp [not_mem_renumberDay (c := ',') rfl hcomma, not_mem_renumberEnd (c := ',') rfl hcomma']
  have hitem : ∀ {rest}, IsSuffix rest →
      (grammarRules.IsItem (renumberDay first ++ '-' :: renumberEnd last ++ rest) ↔
        acceptedRules.IsDays (first ++ '-' :: last) ∧ IsStep rest) := by
    intro rest hrest
    rw [Rules.isItem_range_iff hslash hrest, renumberEnd_isDays_iff hfirst]
  obtain hrange | hrange := renumberRange_cases first last
  · have hsingle : ',' ∉ renumberDay first ++ '-' :: renumberEnd last ++ suffix := by
      rw [List.mem_append, not_or]
      exact ⟨hcomma, hcomma''⟩
    rw [hrange, cut_of_not_mem hsingle, List.forall_mem_singleton, hitem hsuffix]
  · -- Sunday is an item of its own, and it is the one that gets the step
    have hparts : ∀ part ∈ [renumberDay first ++ '-' :: renumberEnd last, '1' :: suffix],
        ',' ∉ part := by
      rw [List.forall_mem_cons, List.forall_mem_singleton]
      exact ⟨hcomma, by simpa using hcomma''⟩
    have hcut := cut_join (List.cons_ne_nil _ _) hparts
    have hjoin : renumberRange first last ++ suffix =
        join [','] [renumberDay first ++ '-' :: renumberEnd last, '1' :: suffix] := by
      simp [hrange]
    have hnil : IsStep [] := .inl rfl
    have hfront := hitem hnil.isSuffix
    rw [List.append_nil] at hfront
    rw [hjoin, hcut, List.forall_mem_cons, List.forall_mem_singleton, hfront,
      isItem_sunday_iff hsuffix]
    simp [hnil]

/-- The parts of a renumbered item are accepted by the grammar when the item follows the rules. -/
theorem renumberItem_isItem_iff {item : List Char} (h : ',' ∉ item) :
    (∀ part ∈ cut (· == ',') (renumberItem item), grammarRules.IsItem part) ↔
      acceptedRules.IsItem item := by
  obtain ⟨days, suffix, rfl, hslash, hsuffix, hitem⟩ := exists_suffix item
  rw [hitem]
  by_cases hdash : '-' ∈ days
  · obtain ⟨first, last, rfl, hfirst⟩ := List.eq_append_cons_of_mem hdash
    rw [renumberDays_append hfirst, Rules.isItem_range_iff hslash hsuffix]
    exact renumberRange_isItem_iff hfirst hslash (by simpa using h) hsuffix
  · obtain ⟨hdays, hcomma⟩ : ',' ∉ days ∧ ',' ∉ suffix := by simpa using h
    have hsingle : ',' ∉ renumberDay days ++ suffix := by
      simp [hcomma, not_mem_renumberDay (c := ',') rfl hdays]
    rw [renumberDays_of_not_mem hdash, cut_of_not_mem hsingle, List.forall_mem_singleton,
      Rules.isItem_append_iff (not_mem_renumberDay rfl hslash) hsuffix,
      Rules.isItem_append_iff hslash hsuffix, renumberDay_isDays_iff hdash]
    simp only [renumberDay_isDayName_iff]

/-- A renumbered list is accepted by the grammar when the list follows the rules. -/
theorem renumber_isListText_iff (text : List Char) :
    IsListText .dayOfWeek (renumber text) ↔ acceptedRules.IsList text := by
  have hne : (cut (· == ',') text).map renumberItem ≠ [] := by
    simpa using cut_ne_nil _ text
  have hcomma : ∀ item ∈ cut (· == ',') text, ',' ∉ item := by
    intro item hitem hmem
    have hcut := (exists_mem_cut_iff.mp ⟨item, hitem, hmem⟩).2
    simp at hcut
  unfold IsListText Rules.IsList renumber
  rw [cut_join_eq_flatMap ',' hne]
  simp only [isItemText_iff, List.flatMap_map, List.forall_mem_flatMap]
  exact forall₂_congr fun item hitem => renumberItem_isItem_iff (hcomma item hitem)

end

/-- A list of weekdays with a year right behind it, once its days are renumbered. -/
def HasYear (text : List Char) : Prop := ∃ front rest, renumber text = front ++ rest ∧
  IsListText .dayOfWeek front ∧ EndsRun front rest ∧ IsListText .year rest

/-- The two ends of a range, as they are written. -/
def rangeEnds (item : List Char) : Option (List Char × List Char) :=
  match splitFirst '-' (splitFirst '/' item).1 with
  | (first, some last) => some (first, last)
  | (_, none) => none

theorem rangeEnds_append {first last suffix : List Char} (hdash : '-' ∉ first)
    (hslash : '/' ∉ first ++ '-' :: last) (hsuffix : IsSuffix suffix) :
    rangeEnds (first ++ '-' :: last ++ suffix) = some (first, last) := by
  rw [rangeEnds, splitFirst_suffix hslash hsuffix, splitFirst_append hdash]

/-- Weekdays without a sign and without a year behind them, in which no range begins on day 7 and
ends before it, and the end of a range from a working day or Saturday to day 7 is written `7`. -/
structure IsPlain (text : List Char) : Prop where
  sign : '+' ∉ text
  year : ¬ HasYear text
  ranges : ∀ item ∈ cut (· == ',') text, ∀ ends ∈ rangeEnds item, ∀ a ∈ readDigits? ends.1,
    ∀ b ∈ readDigits? ends.2, (a = 7 → 7 ≤ b) ∧ (b = 7 → ends.2 = ['7'] ∨ a = 0 ∨ a = 7)

/-- No year is left behind a text whose atoms have links between them. -/
theorem not_hasYear {text : List Char} (hfree : GapFree text)
    (h : (renumber text).IsChain Neighbours) : ¬ HasYear text := by
  rintro ⟨front, rest, heq, hfront, hends, hyear⟩
  have hfree := gapFree_renumber hfree
  rw [heq] at hfree h
  obtain ⟨items, hread⟩ := (Line.exists_readField_nil_iff hfree.of_append_left).mpr hfront
  have hsep := separated_of_field hfree.of_append_left (Line.readField_eq_ok_iff.mp hread).1
  obtain ⟨years, hyears⟩ := (Line.exists_readField_nil_iff hfree.of_append_right).mpr hyear
  obtain ⟨c, hc, hlink⟩ := Line.exists_head_of_readField hyears
  have hd := List.getLast?_eq_some_getLast hsep.ne_nil
  obtain hne | hrun := (List.isChain_append.mp h).2.2 _ hd c hc
  · exact hne (by rw [hsep.last _ hd, hlink])
  · exact hends _ hd c hc hrun

section
variable {rules rules' : Rules} {item : List Char}

/-- An item that follows some rules follows others if its days and its range do. -/
theorem Rules.IsItem.imp (h : rules.IsItem item)
    (hday : ∀ cs n, cs ⊆ item → rules.IsDay cs n → rules'.IsDay cs n)
    (hruns : ∀ first last, rangeEnds item = some (first, last) → ∀ a b, rules.IsDay first a →
      rules'.IsDay first a → rules.IsDay last b → rules'.IsDay last b → rules.runs a b last →
      rules'.runs a b last) : rules'.IsItem item := by
  cases h with
  | @days cs suffix hdays hstep =>
    refine .days ?_ hstep
    have hslash := hdays.slash_not_mem
    cases hdays with
    | every => exact .every
    | unspecified => exact .unspecified
    | day hn => exact .day (hday _ _ (List.subset_append_left _ _) hn)
    | @range first last a b ha hb hab =>
      have hends := rangeEnds_append (ha.not_mem (by decide) rfl) hslash hstep.isSuffix
      have ha' := hday first a (fun c hc => by simp [hc]) ha
      have hb' := hday last b (fun c hc => by simp [hc]) hb
      exact .range ha' hb' (hruns first last hends a b ha ha' hb hb' hab)
    | named ha hb hab => exact .named ha hb hab
  | name hname => exact .name hname

end

/-- On a plain text the rules are those of a crontab. -/
theorem IsPlain.isList_iff {text : List Char} (h : IsPlain text) :
    acceptedRules.IsList text ↔ crontabRules.IsList text := by
  refine forall₂_congr fun item hitem => ?_
  have hday : ∀ cs n, cs ⊆ item → (acceptedRules.IsDay cs n ↔ crontabRules.IsDay cs n) := by
    intro cs n hcs
    have hsign : '+' ∉ cs := fun hmem =>
      h.sign (exists_mem_cut_iff.mp ⟨item, hitem, hcs hmem⟩).1
    exact and_congr_left' (Eq.congr_left (readUnsigned?_of_not_mem hsign))
  have hruns : ∀ first last, rangeEnds item = some (first, last) → ∀ a b,
      crontabRules.IsDay first a → crontabRules.IsDay last b →
      (acceptedRules.runs a b last ↔ crontabRules.runs a b last) := by
    rintro first last hends a b ⟨hfirst, -, ha⟩ ⟨hlast, -, hb⟩
    obtain ⟨hstart, hend⟩ := h.ranges item hitem _ hends a hfirst b hlast
    have hseven : last = ['7'] → b = 7 := by
      rintro rfl
      exact (Option.some.inj hlast).symm
    show last = ['7'] ∨ a % 7 ≤ b % 7 ↔ a ≤ b
    constructor
    · rintro (hlast | hab)
      · exact ha.trans (hseven hlast).ge
      · omega
    · intro hab
      by_cases hb : b = 7
      · obtain hlast | ha | ha := hend hb
        · exact .inl hlast
        · simp [ha]
        · simp [ha]
      · right
        omega
  constructor
  · intro hitem
    refine hitem.imp (fun cs n hcs => (hday cs n hcs).mp) ?_
    intro first last hends a b _ ha _ hb
    exact (hruns first last hends a b ha hb).mp
  · intro hitem
    refine hitem.imp (fun cs n hcs => (hday cs n hcs).mpr) ?_
    intro first last hends a b ha _ hb _
    exact (hruns first last hends a b ha hb).mpr

end Weekday

theorem Schedule.exists_parse_iff {e : String} : (∃ s, Schedule.parse e = .ok s) ↔
    checkWords (words e.toList) = .ok () := by
  simp only [Schedule.parse_eq_ok_iff, exists_and_left, and_iff_left_iff_imp]
  exact fun h => Schedule.ofWords?_isSome (checkWords_eq_ok_iff.mp h).1

theorem isListText_ne_nil {f : Field} {cs : List Char} (h : IsListText f cs) : cs ≠ [] := by
  rintro rfl
  obtain ⟨i, hi, _⟩ := h [] List.mem_cons_self
  exact hi.ne_nil rfl

/-- The line of a text of weekdays at midnight. -/
theorem exists_parse_midnight_iff {text : String} (h : IsWord text.toList) :
    (∃ s, Schedule.parse ("0 0 * * " ++ text) = .ok s) ↔
      ∃ line, Line.read (Line.midnight ++ Weekday.renumber text.toList) = .ok line := by
  have hwords : words ("0 0 * * " ++ text).toList = [['0'], ['0'], ['*'], ['*'], text.toList] := by
    have hfront : words "0 0 * *".toList = [['0'], ['0'], ['*'], ['*']] := by decide
    have hsplit : ("0 0 * * " ++ text).toList = "0 0 * *".toList ++ ' ' :: text.toList := by simp
    rw [hsplit, words_append rfl, hfront, words_of_isWord h]
    rfl
  have hline : lineOf [['0'], ['0'], ['*'], ['*'], text.toList] =
      Line.midnight ++ Weekday.renumber text.toList := by
    simp [lineOf, Line.midnight]
  rw [Schedule.exists_parse_iff, hwords, checkWords_eq_ok_iff, hline]
  simp

theorem exists_parse_rules_iff {text : String} (h : ∀ c ∈ text.toList, isBlank c = false) :
    (∃ s, Schedule.parse ("0 0 * * " ++ text) = .ok s) ↔
      Weekday.acceptedRules.IsList text.toList ∨ Weekday.HasYear text.toList := by
  rw [← Weekday.renumber_isListText_iff]
  by_cases hne : text.toList = []
  · obtain rfl : text = "" := String.toList_eq_nil_iff.mp hne
    have hnil : Weekday.renumber "".toList = [] := rfl
    refine iff_of_false ?_ ?_
    · rw [Schedule.exists_parse_iff]
      decide
    · rintro (hlist | ⟨front, rest, heq, hfront, _⟩)
      · exact isListText_ne_nil hlist hnil
      · exact isListText_ne_nil hfront (List.append_eq_nil_iff.mp (heq.symm.trans hnil)).1
  · have hword : IsWord text.toList := ⟨hne, h⟩
    have hfree := Weekday.gapFree_renumber (gapFree_of_isWord hword)
    rw [exists_parse_midnight_iff hword, Line.read_midnight_iff hfree]
    constructor
    · rintro ⟨front, rest, heq, hfront, hends, rfl | hyear⟩
      · left
        rwa [heq, List.append_nil]
      · exact .inr ⟨front, rest, heq, hfront, hends, hyear⟩
    · rintro (hlist | ⟨front, rest, heq, hfront, hends, hyear⟩)
      · exact ⟨_, [], (List.append_nil _).symm, hlist, by simp [EndsRun], .inl rfl⟩
      · exact ⟨front, rest, heq, hfront, hends, .inr hyear⟩

/-- A text without blanks is accepted as weekdays when it follows the rules or a year is left behind
it. A plain text is accepted when it follows the rules of a crontab. -/
theorem parse_weekdays_iff {text : String} (h : ∀ c ∈ text.toList, isBlank c = false) :
    ((∃ s, Schedule.parse ("0 0 * * " ++ text) = .ok s) ↔
      Weekday.acceptedRules.IsList text.toList ∨ Weekday.HasYear text.toList) ∧
    (Weekday.IsPlain text.toList → ((∃ s, Schedule.parse ("0 0 * * " ++ text) = .ok s) ↔
      Weekday.crontabRules.IsList text.toList)) := by
  refine ⟨exists_parse_rules_iff h, fun hplain => ?_⟩
  rw [exists_parse_rules_iff h, or_iff_left hplain.year, hplain.isList_iff]

/-- Names in a range, a step with zeros in front, and a range that ends on Sunday. -/
theorem parse_weekdays_week :
    Weekday.IsPlain "SUN-tue,00-4/03,?,5-7".toList ∧
      Weekday.crontabRules.IsList "SUN-tue,00-4/03,?,5-7".toList := by
  have hall : "SUN-tue,00-4/03,?,5-7".toList.all (fun c => !isBlank c) := by decide +kernel
  have hword : ∀ c ∈ "SUN-tue,00-4/03,?,5-7".toList, isBlank c = false := fun c hc => by
    simpa using List.all_eq_true.mp hall c hc
  have hchain : (Weekday.renumber "SUN-tue,00-4/03,?,5-7".toList).IsChain Neighbours := by
    decide +kernel
  have hplain : Weekday.IsPlain "SUN-tue,00-4/03,?,5-7".toList := by
    have hfree := gapFree_of_isWord (w := "SUN-tue,00-4/03,?,5-7".toList) ⟨by decide, hword⟩
    exact ⟨by decide, Weekday.not_hasYear hfree hchain, by decide +kernel⟩
  have hparse : ∃ s, Schedule.parse ("0 0 * * " ++ "SUN-tue,00-4/03,?,5-7") = .ok s := by
    rw [Schedule.exists_parse_iff]
    decide +kernel
  exact ⟨hplain, ((parse_weekdays_iff hword).2 hplain).mp hparse⟩

theorem Weekday.not_crontab_range : ¬ crontabRules.IsItem "7-5".toList := by
  have hsplit : "7-5".toList = ['7'] ++ '-' :: ['5'] ++ [] := rfl
  rw [hsplit, Rules.isItem_range_iff (by decide) (by simp [IsSuffix]),
    Rules.isDays_append_iff (by decide)]
  rintro ⟨⟨a, b, ⟨ha, -⟩, ⟨hb, -⟩, hab⟩ | ⟨a, b, hname, -⟩, -⟩
  · obtain rfl : 7 = a := Option.some.inj ha
    obtain rfl : 5 = b := Option.some.inj hb
    exact absurd (show 7 ≤ 5 from hab) (by decide)
  · exact hname.not_mem (c := '7') rfl List.mem_cons_self

/-- A text without links that is no number, star, question mark or name. -/
theorem Weekday.not_crontab_atom {c : Char} {cs : List Char} (hc : c.isAlpha = false)
    (hlink : '-' ∉ c :: cs ∧ '/' ∉ c :: cs) (hread : readDigits? (c :: cs) = none) (hcs : cs ≠ []) :
    ¬ crontabRules.IsItem (c :: cs) := by
  rw [← List.append_nil (c :: cs), Rules.isItem_append_iff hlink.2 (by simp [IsSuffix]),
    Rules.isDays_iff_of_not_mem hlink.1]
  rintro (⟨hdays | hdays | ⟨n, hn⟩, -⟩ | ⟨-, n, hname⟩)
  · exact hcs (List.cons.inj hdays).2
  · exact hcs (List.cons.inj hdays).2
  · cases hn.1.symm.trans hread
  · exact hname.not_mem hc List.mem_cons_self

/-- A range over the end of the week, a sign and a year are accepted, and a range that ends on
Sunday is refused when the 7 has a zero in front. A crontab has it the other way round. -/
theorem parse_weekdays_beyond :
    (∀ text ∈ ["7-5", "+5", "*2020"], (∃ s, Schedule.parse ("0 0 * * " ++ text) = .ok s) ∧
      ¬ Weekday.crontabRules.IsList text.toList) ∧
    (¬ ∃ s, Schedule.parse "0 0 * * 5-07" = .ok s) ∧
      Weekday.crontabRules.IsList "5-07".toList := by
  simp only [Schedule.exists_parse_iff]
  refine ⟨fun text htext => ⟨?_, fun hlist => ?_⟩, by decide +kernel, ?_⟩
  · revert text
    decide +kernel
  · have hitem : Weekday.crontabRules.IsItem text.toList := by
      have hcut : ∀ text ∈ ["7-5", "+5", "*2020"], text.toList ∈ cut (· == ',') text.toList := by
        decide +kernel
      exact hlist _ (hcut text htext)
    simp only [List.mem_cons, List.not_mem_nil, or_false] at htext
    obtain rfl | rfl | rfl := htext
    · exact Weekday.not_crontab_range hitem
    · exact Weekday.not_crontab_atom rfl (by decide) (by decide) (by decide) hitem
    · exact Weekday.not_crontab_atom rfl (by decide) (by decide) (by decide) hitem
  · have hdays : Weekday.crontabRules.IsDays (['5'] ++ '-' :: ['0', '7']) :=
      .range ⟨(rfl : _ = some 5), by decide⟩ ⟨(rfl : _ = some 7), by decide⟩
        (show 5 ≤ 7 by decide)
    intro part hpart
    obtain rfl := List.mem_singleton.mp hpart
    exact .days hdays (.inl rfl)

end RetentionJobs.Cron
