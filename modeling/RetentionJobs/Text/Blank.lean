/-! White space as Unicode's `White_Space` property has it, and the two operations that use it:
cutting a text into its words and trimming both ends. -/
namespace RetentionJobs.Text

/-- The characters with the Unicode property `White_Space`. -/
def isBlank (c : Char) : Bool :=
  (0x09 ≤ c.toNat && c.toNat ≤ 0x0D) || c.toNat == 0x20 || c.toNat == 0x85 || c.toNat == 0xA0 ||
  c.toNat == 0x1680 || (0x2000 ≤ c.toNat && c.toNat ≤ 0x200A) || c.toNat == 0x2028 ||
  c.toNat == 0x2029 || c.toNat == 0x202F || c.toNat == 0x205F || c.toNat == 0x3000

/-- Cuts at every character that satisfies `p`; the pieces between the cuts may be empty. -/
def cut (p : Char → Bool) : List Char → List (List Char)
  | [] => [[]]
  | c :: cs =>
    if p c then [] :: cut p cs
    else match cut p cs with
      | [] => [[c]]
      | piece :: pieces => (c :: piece) :: pieces

@[simp] theorem cut_nil (p : Char → Bool) : cut p [] = [[]] := rfl

theorem cut_ne_nil (p : Char → Bool) (cs : List Char) : cut p cs ≠ [] := by
  cases cs with
  | nil => simp
  | cons c cs => unfold cut; split <;> (try split) <;> simp

theorem cut_cons_of_pos {p : Char → Bool} {c : Char} (h : p c) (cs : List Char) :
    cut p (c :: cs) = [] :: cut p cs := by simp [cut, h]

/-- The words of a text: what stands between its blanks. -/
def words (cs : List Char) : List (List Char) :=
  (cut isBlank cs).filter (fun w => !w.isEmpty)

theorem ne_nil_of_mem_words {cs w : List Char} (h : w ∈ words cs) : w ≠ [] := by
  simp [words] at h; exact h.2

def strip (p : Char → Bool) (cs : List Char) : List Char :=
  ((cs.dropWhile p).reverse.dropWhile p).reverse

def trim (cs : List Char) : List Char := strip isBlank cs

/-- Cuts at the first `c`: what stands before it, and what stands after it if it occurs. -/
def splitFirst (c : Char) (cs : List Char) : List Char × Option (List Char) :=
  match cs.dropWhile (· ≠ c) with
  | [] => (cs, none)
  | _ :: after => (cs.takeWhile (· ≠ c), some after)

/-- The pieces with `sep` between neighbours. -/
def join (sep : List Char) (pieces : List (List Char)) : List Char := sep.intercalate pieces

end RetentionJobs.Text
