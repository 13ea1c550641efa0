import Mathlib.Data.List.Nodup
import RetentionJobs.Proofs.Json.Readers
/-! What is rendered is a text of its value: strings as one of their spellings, arrays and objects
without any gap. -/
namespace RetentionJobs.Json
open RetentionJobs.Text

theorem isHexDigit_hexDigit {n : Nat} (h : n < 16) : IsHexDigit (hexDigit .lower n) n :=
  ⟨h, .lower, rfl⟩

theorem spelled_escape (c : Char) : Spelled c (escape c) := by
  unfold escape
  split_ifs with hquote hback hnewline hreturn htab hbackspace hfeed hlow
  · subst hquote
    exact .short (by decide)
  · subst hback
    exact .short (by decide)
  · subst hnewline
    exact .short (by decide)
  · subst hreturn
    exact .short (by decide)
  · subst htab
    exact .short (by decide)
  · obtain rfl : c = '\x08' := Char.toNat_inj.mp hbackspace
    exact .short (by decide)
  · obtain rfl : c = '\x0c' := Char.toNat_inj.mp hfeed
    exact .short (by decide)
  · apply Spelled.unit
    have hzero : IsHexDigit '0' 0 := isHexDigit_hexDigit (by decide)
    have hquad := IsQuad.mk hzero hzero (isHexDigit_hexDigit (n := c.toNat / 16) (by omega))
      (isHexDigit_hexDigit (Nat.mod_lt c.toNat (by decide)))
    rwa [show ((0 * 16 + 0) * 16 + c.toNat / 16) * 16 + c.toNat % 16 = c.toNat by omega] at hquad
  · exact .plain ⟨Nat.not_lt.mp hlow, hquote, hback⟩

theorem isBody_escape (s : List Char) : IsBody s (s.flatMap escape) := by
  induction s with
  | nil => exact .nil
  | cons c s ih => exact .cons (spelled_escape c) ih

theorem isText_quoted (s : String) : IsText s (quoted s) :=
  ⟨_, isBody_escape s.toList, rfl⟩

/-- A text without gaps around it. -/
def bare (text : List Char) : Padded where
  before := []
  text
  after := []
  gap_before := by simp [IsGap]
  gap_after := by simp [IsGap]

@[simp] theorem write_bare (text : List Char) : (bare text).write = text := by
  simp [bare, Padded.write]

/-- A member as it is rendered. -/
def rendered (member : String × Json) : Named where
  key := bare (quoted member.1)
  value := bare (render member.2)
  name := member.1
  spelled := isText_quoted member.1

theorem write_rendered (member : String × Json) :
    (rendered member).write = quoted member.1 ++ ':' :: render member.2 := by
  simp [rendered, Entry.write]

theorem renderItems_eq (items : List Json) :
    renderItems items = more (items.map render) ++ [']'] := by
  induction items with
  | nil => rfl
  | cons item items ih => simp [renderItems, ih, more_cons]

theorem isArray_render (items : List Json) :
    IsArray (items.map (fun item => bare (render item))) (render (.array items)) := by
  have hwrite : (items.map (fun item => bare (render item))).map Padded.write =
      items.map render := by simp
  rw [IsArray, hwrite]
  cases items with
  | nil => exact .inl ⟨rfl, [], by simp [IsGap], rfl⟩
  | cons item items =>
    refine .inr ⟨by simp, ?_⟩
    rw [List.map_cons, join_cons_more]
    simp [render, renderItems_eq]

theorem renderMembers_eq (members : List (String × Json)) :
    renderMembers members = more (members.map (fun m => (rendered m).write)) ++ ['\x7d'] := by
  induction members with
  | nil => rfl
  | cons member members ih =>
    obtain ⟨key, value⟩ := member
    simp [renderMembers, ih, more_cons, write_rendered]

theorem isObjectOf_render (members : List (String × Json)) :
    IsObjectOf (members.map rendered) (render (.object members)) := by
  have hwrite : ((members.map rendered).map Named.toEntry).map Entry.write =
      members.map (fun m => (rendered m).write) := by simp
  rw [IsObjectOf, IsObject, hwrite]
  cases members with
  | nil => exact .inl ⟨rfl, [], by simp [IsGap], rfl⟩
  | cons member members =>
    obtain ⟨key, value⟩ := member
    refine .inr ⟨by simp, ?_⟩
    rw [List.map_cons, join_cons_more]
    simp [render, renderMembers_eq, write_rendered]

/-- What is rendered is a text of a value. -/
theorem isValue_render : (value : Json) → IsValue (render value)
  | null => .literal (by decide)
  | bool true => .literal (by decide)
  | bool false => .literal (by decide)
  | number n => .number (isNumber_decimal n)
  | string s => .string (isText_quoted s).isLooseText
  | array items => by
    apply IsValue.array (isArray_render items)
    intro i hi
    obtain ⟨item, hitem, rfl⟩ := List.mem_map.mp hi
    exact isValue_render item
  | object members => by
    apply IsValue.object (isObjectOf_render members)
    · intro e he
      obtain ⟨m, hm, rfl⟩ := List.mem_map.mp he
      exact m.spelled.isLooseText
    · intro e he
      simp only [List.map_map, List.mem_map, Function.comp_apply] at he
      obtain ⟨⟨key, value⟩, hmember, rfl⟩ := he
      have hsize := List.sizeOf_lt_of_mem hmember
      have hvalue : sizeOf (key, value) = 1 + sizeOf key + sizeOf value := rfl
      exact isValue_render value
termination_by value => sizeOf value

section
variable {α : Type} {slots : List (Slot α)} {a : α} {members : List (String × Json)}

/-- The member is rendered for this part of `a`. -/
def Renders (a : α) (slot : Slot α) (member : String × Json) : Prop :=
  slot.key = member.1 ∧ slot.carries a (render member.2)

theorem keys_of_renders (h : List.Forall₂ (Renders a) slots members) :
    members.map Prod.fst = slots.map Slot.key := by
  induction h with
  | nil => rfl
  | cons hmember _ ih => rw [List.map_cons, List.map_cons, hmember.1, ih]

theorem carries_of_renders (h : List.Forall₂ (Renders a) slots members)
    (hnodup : (slots.map Slot.key).Nodup) : ∀ slot ∈ slots, ∀ member ∈ members,
      member.1 = slot.key → slot.carries a (render member.2) := by
  induction h with
  | nil => simp
  | @cons first member slots members hmember hmembers ih =>
    obtain ⟨hfirst, hnodup⟩ := List.nodup_cons.mp hnodup
    intro slot hslot member' hmember' hname
    obtain rfl | hslot := List.mem_cons.mp hslot
    · obtain rfl | hmember' := List.mem_cons.mp hmember'
      · exact hmember.2
      · have hmem : member'.1 ∈ members.map Prod.fst := List.mem_map_of_mem hmember'
        rw [keys_of_renders hmembers, hname] at hmem
        exact absurd hmem hfirst
    · obtain rfl | hmember' := List.mem_cons.mp hmember'
      · rw [← hmember.1] at hname
        exact absurd (hname ▸ List.mem_map_of_mem hslot) hfirst
      · exact ih hnodup slot hslot member' hmember' hname

/-- Members that are rendered one for each part carry the record. -/
theorem isRecord_render (h : List.Forall₂ (Renders a) slots members)
    (hnodup : (slots.map Slot.key).Nodup) : IsRecord slots a (render (.object members)) := by
  refine ⟨members.map rendered, isObjectOf_render members, ?_⟩
  have hnames : (members.map rendered).map Named.name = slots.map Slot.key := by
    rw [← keys_of_renders h, List.map_map]
    rfl
  constructor
  · intro slot hslot m hm hname
    obtain ⟨member, hmember, rfl⟩ := List.mem_map.mp hm
    exact carries_of_renders h hnodup slot hslot member hmember hname
  · intro slot _
    rw [hnames]
    exact List.nodup_iff_count_le_one.mp hnodup slot.key
  · intro slot hslot hmem
    rw [hnames] at hmem
    exact absurd (List.mem_map_of_mem hslot) hmem
  · intro m hm hmem
    rw [← hnames] at hmem
    exact absurd (List.mem_map_of_mem hm) hmem

end
end RetentionJobs.Json
