import RetentionJobs.Proofs.Cron.FieldTexts
import RetentionJobs.Proofs.Cron.WeekdayShift
/-! Which texts are accepted as weekdays. The rules of a crontab, the rules of the grammar, and the
rules that come out when a text is renumbered before the grammar reads it differ only in how a day
is read and which ranges are allowed. -/
namespace RetentionJobs.Cron
open RetentionJobs.Text Grammar

namespace Weekday

/-- How days are read and which ranges of them are allowed. -/
structure Rules where
  /-- The number of a day. -/
  read : List Char → Option Nat
  /-- The least number of a day. The greatest is 7. -/
  least : Nat
  /-- Whether a range may run from one day to another, of which the text is given, too. -/
  runs : Nat → Nat → List Char → Prop
  /-- Only digits and signs are read. -/
  mem_of_read : ∀ {cs : List Char} {n : Nat}, read cs = some n → ∀ c ∈ cs, c = '+' ∨ c.isDigit

/-- A crontab's days are digit strings from 0 to 7, and no range runs backwards. -/
def crontabRules : Rules where
  read := readDigits?
  least := 0
  runs a b _ := a ≤ b
  mem_of_read h _ hc := .inr ((isDigit_of_readDigits? h).2 _ hc)

/-- The days of the grammar are digit strings from 1 to 7, and no range runs backwards. -/
def grammarRules : Rules where
  read := readDigits?
  least := 1
  runs a b _ := a ≤ b
  mem_of_read h _ hc := .inr ((isDigit_of_readDigits? h).2 _ hc)

/-- The days that are accepted may have a plus sign. In a range, Sunday is the first day by either
number, except that a range that ends in `7`, written so, runs through Saturday. -/
def acceptedRules : Rules where
  read := readUnsigned?
  least := 0
  runs a b last := last = ['7'] ∨ a % 7 ≤ b % 7
  mem_of_read h _ hc := mem_of_readUnsigned? h hc

/-- A known name of a day. -/
def IsDayName (cs : List Char) (n : Nat) : Prop :=
  ∃ x : String, cs = x.toList ∧ Field.resolve .dayOfWeek x = .ok n

/-- No step, or a step of 1 to 7. -/
def IsStep (suffix : List Char) : Prop :=
  suffix = [] ∨ ∃ step n, suffix = '/' :: step ∧ readDigits? step = some n ∧ 1 ≤ n ∧ n ≤ 7

namespace Rules
variable (rules : Rules)

/-- The text of a day. -/
def IsDay (cs : List Char) (n : Nat) : Prop := rules.read cs = some n ∧ rules.least ≤ n ∧ n ≤ 7

/-- The text of some days. -/
inductive IsDays : List Char → Prop
  | every : IsDays ['*']
  | unspecified : IsDays ['?']
  | day {cs : List Char} {n : Nat} (h : rules.IsDay cs n) : IsDays cs
  | range {first last : List Char} {a b : Nat} (ha : rules.IsDay first a) (hb : rules.IsDay last b)
    (hruns : rules.runs a b last) : IsDays (first ++ '-' :: last)
  | named {first last : List Char} {a b : Nat} (ha : IsDayName first a) (hb : IsDayName last b)
    (hab : a ≤ b) : IsDays (first ++ '-' :: last)

/-- The text of an item: days, perhaps with a step, or the name of a day. -/
inductive IsItem : List Char → Prop
  | days {cs suffix : List Char} (h : rules.IsDays cs) (hstep : IsStep suffix) :
    IsItem (cs ++ suffix)
  | name {cs : List Char} {n : Nat} (h : IsDayName cs n) : IsItem cs

/-- The text of a list of items. -/
def IsList (cs : List Char) : Prop := ∀ part ∈ cut (· == ',') cs, rules.IsItem part

end Rules

theorem IsDayName.isAlpha {cs : List Char} {n : Nat} (h : IsDayName cs n) :
    cs ≠ [] ∧ ∀ c ∈ cs, c.isAlpha := by
  obtain ⟨x, rfl, hx⟩ := h
  exact Field.isName_of_resolve hx

section
variable {rules : Rules} {cs suffix first last : List Char} {n : Nat}

theorem Rules.IsDay.not_mem (h : rules.IsDay cs n) {c : Char} (hplus : c ≠ '+')
    (hdigit : c.isDigit = false) : c ∉ cs := by
  intro hc
  obtain rfl | h := rules.mem_of_read h.1 c hc
  · exact hplus rfl
  · simp [h] at hdigit

theorem IsDayName.not_mem (h : IsDayName cs n) {c : Char} (hc : c.isAlpha = false) : c ∉ cs := by
  intro hmem
  simp [h.isAlpha.2 c hmem] at hc

theorem IsDayName.exists_other (h : IsDayName cs n) : ∃ c ∈ cs, c ≠ '+' ∧ c.isDigit = false := by
  obtain ⟨hne, halpha⟩ := h.isAlpha
  obtain ⟨c, cs, rfl⟩ := List.exists_cons_of_ne_nil hne
  have hc := halpha c List.mem_cons_self
  refine ⟨c, List.mem_cons_self, ?_, isDigit_eq_false_of_isAlpha hc⟩
  rintro rfl
  simp at hc

/-- The text of some days without a hyphen. -/
theorem Rules.isDays_iff_of_not_mem (h : '-' ∉ cs) :
    rules.IsDays cs ↔ cs = ['*'] ∨ cs = ['?'] ∨ ∃ n, rules.IsDay cs n := by
  constructor
  · intro hdays
    cases hdays with
    | every => exact .inl rfl
    | unspecified => exact .inr (.inl rfl)
    | day hn => exact .inr (.inr ⟨_, hn⟩)
    | range _ _ _ => simp at h
    | named _ _ _ => simp at h
  · rintro (rfl | rfl | ⟨n, hn⟩)
    · exact .every
    · exact .unspecified
    · exact .day hn

/-- The text of some days with a hyphen. -/
theorem Rules.isDays_append_iff (h : '-' ∉ first) : rules.IsDays (first ++ '-' :: last) ↔
    (∃ a b, rules.IsDay first a ∧ rules.IsDay last b ∧ rules.runs a b last) ∨
      ∃ a b, IsDayName first a ∧ IsDayName last b ∧ a ≤ b := by
  constructor
  · intro hdays
    generalize hcs : first ++ '-' :: last = cs at hdays
    cases hdays with
    | every =>
      have hmem : '-' ∈ ['*'] := by simp [← hcs]
      simp at hmem
    | unspecified =>
      have hmem : '-' ∈ ['?'] := by simp [← hcs]
      simp at hmem
    | day hn => exact absurd (by simp [← hcs]) (hn.not_mem (c := '-') (by decide) rfl)
    | range ha hb hruns =>
      obtain ⟨rfl, rfl⟩ := (append_cons_inj h (ha.not_mem (by decide) rfl)).mp hcs
      exact .inl ⟨_, _, ha, hb, hruns⟩
    | named ha hb hab =>
      obtain ⟨rfl, rfl⟩ := (append_cons_inj h (ha.not_mem rfl)).mp hcs
      exact .inr ⟨_, _, ha, hb, hab⟩
  · rintro (⟨a, b, ha, hb, hruns⟩ | ⟨a, b, ha, hb, hab⟩)
    · exact .range ha hb hruns
    · exact .named ha hb hab

theorem Rules.IsDays.slash_not_mem (h : rules.IsDays cs) : '/' ∉ cs := by
  intro hc
  cases h with
  | every => simp at hc
  | unspecified => simp at hc
  | day hn => exact hn.not_mem (by decide) rfl hc
  | range ha hb _ =>
    obtain hc | hc := List.mem_append.mp hc
    · exact ha.not_mem (by decide) rfl hc
    · obtain hc | hc := List.mem_cons.mp hc
      · simp at hc
      · exact hb.not_mem (by decide) rfl hc
  | named ha hb _ =>
    obtain hc | hc := List.mem_append.mp hc
    · exact ha.not_mem rfl hc
    · obtain hc | hc := List.mem_cons.mp hc
      · simp at hc
      · exact hb.not_mem rfl hc

/-- What may stand behind the days of an item: nothing, or a slash and more. -/
def IsSuffix (suffix : List Char) : Prop := ∀ c ∈ suffix.head?, c = '/'

theorem IsStep.isSuffix (h : IsStep suffix) : IsSuffix suffix := by
  obtain rfl | ⟨step, n, rfl, _⟩ := h <;> simp [IsSuffix]

theorem splitFirst_suffix (h : '/' ∉ cs) (hsuffix : IsSuffix suffix) :
    (splitFirst '/' (cs ++ suffix)).1 = cs := by
  cases suffix with
  | nil => rw [List.append_nil, splitFirst_of_not_mem h]
  | cons c step =>
    obtain rfl := hsuffix c rfl
    rw [splitFirst_append h]

/-- The text of an item, with the days and what stands behind them told apart. -/
theorem Rules.isItem_append_iff (h : '/' ∉ cs) (hsuffix : IsSuffix suffix) :
    rules.IsItem (cs ++ suffix) ↔
      (rules.IsDays cs ∧ IsStep suffix) ∨ (suffix = [] ∧ ∃ n, IsDayName cs n) := by
  constructor
  · intro hitem
    generalize hcs : cs ++ suffix = part at hitem
    cases hitem with
    | @days cs' suffix' hdays hstep =>
      have hsplit := splitFirst_suffix h hsuffix
      rw [hcs, splitFirst_suffix hdays.slash_not_mem hstep.isSuffix] at hsplit
      subst hsplit
      obtain rfl := List.append_cancel_left hcs
      exact .inl ⟨hdays, hstep⟩
    | name hname =>
      cases suffix with
      | nil =>
        obtain rfl : cs = part := by simpa using hcs
        exact .inr ⟨rfl, _, hname⟩
      | cons c step =>
        obtain rfl := hsuffix c rfl
        exact absurd (by simp [← hcs]) (hname.not_mem (c := '/') rfl)
  · rintro (⟨hdays, hstep⟩ | ⟨rfl, n, hname⟩)
    · exact .days hdays hstep
    · simpa using Rules.IsItem.name hname

/-- The text of an item with a hyphen in its days. -/
theorem Rules.isItem_range_iff (h : '/' ∉ first ++ '-' :: last) (hsuffix : IsSuffix suffix) :
    rules.IsItem (first ++ '-' :: last ++ suffix) ↔
      rules.IsDays (first ++ '-' :: last) ∧ IsStep suffix := by
  have hname : ¬ ∃ n, IsDayName (first ++ '-' :: last) n := by
    rintro ⟨n, hn⟩
    exact hn.not_mem (c := '-') rfl (by simp)
  rw [isItem_append_iff h hsuffix]
  simp [hname]

end

section
variable {cs : List Char}

/-- The grammar's rules are what is read and passes the check. -/
theorem exists_spelled_iff : (∃ s : Spec, s.Spelled .dayOfWeek cs ∧
    Field.checkSpec .dayOfWeek s = .ok ()) ↔ grammarRules.IsDays cs := by
  constructor
  · rintro ⟨s, hs, hcheck⟩
    cases hs with
    | unspecified _ => exact .unspecified
    | every => exact .every
    | value hn => exact .day ⟨hn.1, Field.checkSpec_value_iff.mp hcheck⟩
    | range ha hb =>
      obtain ⟨hleast, hab, hgreatest⟩ := Field.checkSpec_range_iff.mp hcheck
      exact .range ⟨ha.1, hleast, hab.trans hgreatest⟩ ⟨hb.1, hleast.trans hab, hgreatest⟩ hab
    | @named x y _ _ =>
      obtain ⟨a, b, hx, hy, hab⟩ := Field.checkSpec_named_iff.mp hcheck
      exact .named ⟨x, rfl, hx⟩ ⟨y, rfl, hy⟩ hab
  · have hnumeral : ∀ {cs n}, grammarRules.IsDay cs n → IsNumeral n cs := fun h =>
      ⟨h.1, Field.isOrdinal (f := .dayOfWeek) h.2.2⟩
    intro h
    cases h with
    | every => exact ⟨.every, .every, rfl⟩
    | unspecified => exact ⟨.unspecified, .unspecified rfl, rfl⟩
    | day hn => exact ⟨_, .value (hnumeral hn), Field.checkSpec_value_iff.mpr hn.2⟩
    | range ha hb hab =>
      exact ⟨_, .range (hnumeral ha) (hnumeral hb),
        Field.checkSpec_range_iff.mpr ⟨ha.2.1, hab, hb.2.2⟩⟩
    | named ha hb hab =>
      obtain ⟨x, rfl, hx⟩ := ha
      obtain ⟨y, rfl, hy⟩ := hb
      exact ⟨_, .named (Field.isName_of_resolve hx) (Field.isName_of_resolve hy),
        Field.checkSpec_named_iff.mpr ⟨_, _, hx, hy, hab⟩⟩

theorem isItemText_iff : IsItemText .dayOfWeek cs ↔ grammarRules.IsItem cs := by
  constructor
  · rintro ⟨i, hi, hcheck⟩
    cases hi with
    | @set s cs hs =>
      have hdays : grammarRules.IsDays cs := exists_spelled_iff.mp ⟨s, hs, hcheck⟩
      simpa using Rules.IsItem.days hdays (.inl rfl)
    | @stepped s n cs step hs hn =>
      obtain ⟨hstep, hcheck⟩ := Field.checkItem_stepped_iff.mp hcheck
      exact .days (exists_spelled_iff.mp ⟨s, hs, hcheck⟩) (.inr ⟨step, n, rfl, hn.1, hstep⟩)
    | @name x _ =>
      obtain ⟨n, hn⟩ := Field.checkItem_name_iff.mp hcheck
      exact .name ⟨x, rfl, hn⟩
  · intro h
    cases h with
    | days hdays hstep =>
      obtain ⟨s, hs, hcheck⟩ := exists_spelled_iff.mpr hdays
      obtain rfl | ⟨step, n, rfl, hn, hbounds⟩ := hstep
      · rw [List.append_nil]
        exact ⟨_, .set hs, hcheck⟩
      · have hordinal : IsOrdinal n := Field.isOrdinal (f := .dayOfWeek) hbounds.2
        exact ⟨_, .stepped hs ⟨hn, hordinal⟩, Field.checkItem_stepped_iff.mpr ⟨hbounds, hcheck⟩⟩
    | name hname =>
      obtain ⟨x, rfl, hx⟩ := hname
      exact ⟨_, .name (Field.isName_of_resolve hx), Field.checkItem_name_iff.mpr ⟨_, hx⟩⟩

end

end Weekday
end RetentionJobs.Cron
