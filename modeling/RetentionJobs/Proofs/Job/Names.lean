import Mathlib.Data.List.Basic
import RetentionJobs.Job.Name
/-! Which names pass their checks, and the reason that is given against any other name. -/
namespace RetentionJobs.Job

/-- A name is not empty, and the database does not cut it. -/
def IsSized (name : String) : Prop := 1 ≤ name.utf8ByteSize ∧ name.utf8ByteSize ≤ 63

/-! The characters of names. All of them are ASCII. -/

def InLiteral (c : Char) : Prop := c.isAlphanum ∨ c = '_' ∨ c = '-'

def StartsIdentifier (c : Char) : Prop := c.isAlpha ∨ c = '_'

def ContinuesIdentifier (c : Char) : Prop := c.isAlphanum ∨ c = '_'

inductive LengthReason (name : String) : String → Prop where
  | empty (h : name.utf8ByteSize = 0) : LengthReason name "must not be empty"
  | tooLong (h : 63 < name.utf8ByteSize) : LengthReason name "longer than 63 bytes"

/-- The reason against a name inside of a literal: its length, or else its first bad character. -/
inductive LiteralReason (name : String) : String → Prop where
  | length {reason : String} (h : LengthReason name reason) : LiteralReason name reason
  | character {front back : List Char} {c : Char} (hsized : IsSized name)
      (hname : name.toList = front ++ c :: back) (hfront : ∀ d ∈ front, InLiteral d)
      (hc : ¬ InLiteral c) :
      LiteralReason name ("contains disallowed character '" ++ String.singleton c ++ "'")

/-- The reason against an identifier: its length, its first character, or else its first bad
character after that. -/
inductive IdentifierReason (name : String) : String → Prop where
  | length {reason : String} (h : LengthReason name reason) : IdentifierReason name reason
  | start {c : Char} {back : List Char} (hsized : IsSized name) (hname : name.toList = c :: back)
      (hc : ¬ StartsIdentifier c) :
      IdentifierReason name
        ("must start with a letter or underscore, found '" ++ String.singleton c ++ "'")
  | character {first c : Char} {front back : List Char} (hsized : IsSized name)
      (hname : name.toList = first :: (front ++ c :: back)) (hfirst : StartsIdentifier first)
      (hfront : ∀ d ∈ front, ContinuesIdentifier d) (hc : ¬ ContinuesIdentifier c) :
      IdentifierReason name ("contains disallowed character '" ++ String.singleton c ++ "'")

/-- A letter or underscore, then letters, digits and underscores. -/
def IsIdentifier (cs : List Char) : Prop :=
  ∃ c rest, cs = c :: rest ∧ isNameStart c ∧ ∀ d ∈ rest, isNamePart d

theorem checkLength_eq_ok_iff {name : String} :
    checkLength name = .ok () ↔ name.toList ≠ [] ∧ name.utf8ByteSize ≤ maxNameBytes := by
  unfold checkLength
  have hempty : name.isEmpty ↔ name.toList = [] := by simp
  split
  · rename_i h
    simp [hempty.mp h]
  · rename_i h
    have hne : name.toList ≠ [] := mt hempty.mpr h
    split <;> simp_all

theorem checkIdentifier_eq_ok_iff {name : String} :
    checkIdentifier name = .ok () ↔
      IsIdentifier name.toList ∧ name.utf8ByteSize ≤ maxNameBytes := by
  unfold checkIdentifier
  cases hlen : checkLength name with
  | error e =>
    have hnot : ¬ (name.toList ≠ [] ∧ name.utf8ByteSize ≤ maxNameBytes) := by
      rw [← checkLength_eq_ok_iff, hlen]
      simp
    simp only [reduceCtorEq, false_iff]
    rintro ⟨⟨c, rest, hname, _⟩, hsize⟩
    exact hnot ⟨by simp [hname], hsize⟩
  | ok u =>
    obtain ⟨hne, hsize⟩ := checkLength_eq_ok_iff.mp hlen
    cases hname : name.toList with
    | nil => exact absurd hname hne
    | cons c rest =>
      cases hc : isNameStart c <;>
        simp [hc, checkCharacters_eq_ok_iff, IsIdentifier, hsize]

theorem checkLiteral_eq_ok_iff {name : String} :
    checkLiteral name = .ok () ↔
      name.toList ≠ [] ∧ (∀ c ∈ name.toList, isLiteralPart c) ∧
        name.utf8ByteSize ≤ maxNameBytes := by
  unfold checkLiteral
  cases hlen : checkLength name with
  | error e =>
    have hnot : ¬ (name.toList ≠ [] ∧ name.utf8ByteSize ≤ maxNameBytes) := by
      rw [← checkLength_eq_ok_iff, hlen]
      simp
    simp only [reduceCtorEq, false_iff]
    tauto
  | ok u =>
    have hok := checkLength_eq_ok_iff.mp hlen
    simp only [checkCharacters_eq_ok_iff]
    tauto

/-! The reasons. -/

theorem isLiteralPart_iff {c : Char} : isLiteralPart c ↔ InLiteral c := by
  simp [isLiteralPart, isNamePart, InLiteral, or_assoc]

theorem isNameStart_iff {c : Char} : isNameStart c ↔ StartsIdentifier c := by
  simp [isNameStart, StartsIdentifier]

theorem isNamePart_iff {c : Char} : isNamePart c ↔ ContinuesIdentifier c := by
  simp [isNamePart, ContinuesIdentifier]

section
variable {name reason : String}

theorem isSized_iff : IsSized name ↔ name.toList ≠ [] ∧ name.utf8ByteSize ≤ maxNameBytes := by
  have hempty : name.utf8ByteSize = 0 ↔ name.toList = [] := by
    rw [String.utf8ByteSize_eq_zero_iff, String.toList_eq_nil_iff]
  rw [IsSized, maxNameBytes, ne_eq, ← hempty]
  omega

theorem checkLength_eq_ok_iff_isSized : checkLength name = .ok () ↔ IsSized name :=
  checkLength_eq_ok_iff.trans isSized_iff.symm

theorem checkLength_eq_error_iff :
    (∃ fault, checkLength name = .error fault ∧ fault.reason = reason) ↔
      LengthReason name reason := by
  have hempty : name.isEmpty ↔ name.utf8ByteSize = 0 := by
    rw [String.utf8ByteSize_eq_zero_iff, String.isEmpty_iff]
  have htext : NameFault.tooLong.reason = "longer than 63 bytes" := by decide +kernel
  constructor
  · rintro ⟨fault, h, rfl⟩
    unfold checkLength at h
    split at h
    · rename_i hname
      obtain rfl := Except.error.inj h
      exact .empty (hempty.mp hname)
    · split at h
      · rename_i hlong
        obtain rfl := Except.error.inj h
        rw [htext]
        exact .tooLong hlong
      · cases h
  · intro h
    unfold checkLength
    cases h with
    | empty h => exact ⟨.empty, if_pos (hempty.mpr h), rfl⟩
    | tooLong h =>
      have hname : ¬ name.isEmpty := fun hname => by rw [hempty.mp hname] at h; omega
      exact ⟨.tooLong, by rw [if_neg hname, maxNameBytes, if_pos h], htext⟩

/-- The first character that does not belong is reported. -/
theorem checkCharacters_eq_error_iff {p : Char → Bool} {cs : List Char} {fault : NameFault} :
    checkCharacters p cs = .error fault ↔
      ∃ front c back, cs = front ++ c :: back ∧ (∀ d ∈ front, p d) ∧ ¬ p c ∧
        fault = .badCharacter c := by
  unfold checkCharacters
  cases hfind : cs.find? (fun c => !p c) with
  | none =>
    have hall : ∀ c ∈ cs, p c := by simpa using hfind
    simp only [reduceCtorEq, false_iff]
    rintro ⟨front, c, back, rfl, -, hc, -⟩
    exact hc (hall c (by simp))
  | some c =>
    obtain ⟨hc, front, back, hcs, hfront⟩ := List.find?_eq_some_iff_append.mp hfind
    constructor
    · intro h
      exact ⟨front, c, back, hcs, by simpa using hfront, by simpa using hc,
        (Except.error.inj h).symm⟩
    · rintro ⟨front', c', back', hcs', hfront', hc', rfl⟩
      have hfind' : cs.find? (fun c => !p c) = some c' :=
        List.find?_eq_some_iff_append.mpr
          ⟨by simpa using hc', front', back', hcs', by simpa using hfront'⟩
      rw [Option.some.inj (hfind.symm.trans hfind')]

theorem checkLiteral_eq_error_iff :
    (∃ fault, checkLiteral name = .error fault ∧ fault.reason = reason) ↔
      LiteralReason name reason := by
  unfold checkLiteral
  constructor
  · rintro ⟨fault, h, rfl⟩
    split at h
    · rename_i fault' hlength
      obtain rfl := Except.error.inj h
      exact .length (checkLength_eq_error_iff.mp ⟨_, hlength, rfl⟩)
    · rename_i hlength
      obtain ⟨front, c, back, hname, hfront, hc, rfl⟩ := checkCharacters_eq_error_iff.mp h
      exact .character (checkLength_eq_ok_iff_isSized.mp hlength) hname
        (fun d hd => isLiteralPart_iff.mp (hfront d hd)) (mt isLiteralPart_iff.mpr hc)
  · intro h
    cases h with
    | length h =>
      obtain ⟨fault, hlength, hreason⟩ := checkLength_eq_error_iff.mpr h
      exact ⟨fault, by rw [hlength], hreason⟩
    | character hsized hname hfront hc =>
      refine ⟨.badCharacter _, ?_, rfl⟩
      rw [checkLength_eq_ok_iff_isSized.mpr hsized]
      exact checkCharacters_eq_error_iff.mpr ⟨_, _, _, hname,
        fun d hd => isLiteralPart_iff.mpr (hfront d hd), mt isLiteralPart_iff.mp hc, rfl⟩

theorem checkIdentifier_eq_error_iff :
    (∃ fault, checkIdentifier name = .error fault ∧ fault.reason = reason) ↔
      IdentifierReason name reason := by
  unfold checkIdentifier
  constructor
  · rintro ⟨fault, h, rfl⟩
    split at h
    · rename_i fault' hlength
      obtain rfl := Except.error.inj h
      exact .length (checkLength_eq_error_iff.mp ⟨_, hlength, rfl⟩)
    · rename_i hlength
      have hsized := checkLength_eq_ok_iff_isSized.mp hlength
      split at h
      · cases h
      · rename_i first rest hname
        split at h
        · rename_i hfirst
          obtain ⟨front, c, back, rfl, hfront, hc, rfl⟩ := checkCharacters_eq_error_iff.mp h
          exact .character hsized hname (isNameStart_iff.mp hfirst)
            (fun d hd => isNamePart_iff.mp (hfront d hd)) (mt isNamePart_iff.mpr hc)
        · rename_i hfirst
          obtain rfl := Except.error.inj h
          exact .start hsized hname (mt isNameStart_iff.mpr hfirst)
  · intro h
    cases h with
    | length h =>
      obtain ⟨fault, hlength, hreason⟩ := checkLength_eq_error_iff.mpr h
      exact ⟨fault, by rw [hlength], hreason⟩
    | start hsized hname hc =>
      refine ⟨.badStart _, ?_, rfl⟩
      rw [checkLength_eq_ok_iff_isSized.mpr hsized]
      simp only [hname, mt isNameStart_iff.mp hc, Bool.false_eq_true, if_false]
    | character hsized hname hfirst hfront hc =>
      refine ⟨.badCharacter _, ?_, rfl⟩
      rw [checkLength_eq_ok_iff_isSized.mpr hsized]
      simp only [hname, isNameStart_iff.mpr hfirst, if_true]
      exact checkCharacters_eq_error_iff.mpr ⟨_, _, _, rfl,
        fun d hd => isNamePart_iff.mpr (hfront d hd), mt isNamePart_iff.mp hc, rfl⟩

end

theorem isIdentifier_iff {cs : List Char} : IsIdentifier cs ↔ ∃ first rest, cs = first :: rest ∧
    StartsIdentifier first ∧ ∀ c ∈ rest, ContinuesIdentifier c := by
  simp only [IsIdentifier, isNameStart_iff, isNamePart_iff]

end RetentionJobs.Job
