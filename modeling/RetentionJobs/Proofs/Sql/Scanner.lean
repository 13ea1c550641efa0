import Mathlib.Data.List.Basic
import RetentionJobs.Proofs.Job.Names
import RetentionJobs.Proofs.Text.Decimal
import RetentionJobs.Proofs.Text.Words
/-! A scanner for SQL text that goes from left to right. A single-quoted literal ends at the next
quote, a double-quoted identifier at the next double quote and a dollar-quoted body at the next two
dollar signs; outside of them stand words, numbers and single characters. -/
namespace RetentionJobs.Sql
open RetentionJobs.Text RetentionJobs.Job

/-- A bare word, a run of digits, any other bare character, or the content of a quotation. -/
inductive Lexeme where
  | word (text : List Char)
  | number (text : List Char)
  | sign (c : Char)
  | literal (content : List Char)
  | quoted (content : List Char)
  | body (content : List Char)
  deriving DecidableEq, Repr

/-- What has been read of the lexeme that is not finished yet. -/
inductive Mode where
  | bare
  | word (text : List Char)
  | number (text : List Char)
  | literal (content : List Char)
  | quoted (content : List Char)
  /-- After a bare dollar sign. -/
  | dollar
  | body (content : List Char)
  /-- After a dollar sign inside of a body. -/
  | bodyDollar (content : List Char)
  deriving DecidableEq, Repr

/-- The first character of a lexeme. -/
def first (c : Char) : List Lexeme × Mode :=
  if c = '\'' then ([], .literal [])
  else if c = '"' then ([], .quoted [])
  else if c = '$' then ([], .dollar)
  else if isNameStart c then ([], .word [c])
  else if c.isDigit then ([], .number [c])
  else ([.sign c], .bare)

/-- The lexeme that `c` ends, and the one that it begins. -/
def next (done : Lexeme) (c : Char) : List Lexeme × Mode := (done :: (first c).1, (first c).2)

/-- The lexemes that a character completes. -/
def step : Mode → Char → List Lexeme × Mode
  | .bare, c => first c
  | .word w, c => if isNamePart c then ([], .word (w ++ [c])) else next (.word w) c
  | .number n, c => if c.isDigit then ([], .number (n ++ [c])) else next (.number n) c
  | .literal s, c => if c = '\'' then ([.literal s], .bare) else ([], .literal (s ++ [c]))
  | .quoted s, c => if c = '"' then ([.quoted s], .bare) else ([], .quoted (s ++ [c]))
  | .dollar, c => if c = '$' then ([], .body []) else next (.sign '$') c
  | .body s, c => if c = '$' then ([], .bodyDollar s) else ([], .body (s ++ [c]))
  | .bodyDollar s, c => if c = '$' then ([.body s], .bare) else ([], .body (s ++ ['$', c]))

/-- The lexemes that a text completes. -/
def run : Mode → List Char → List Lexeme × Mode
  | m, [] => ([], m)
  | m, c :: cs =>
    match step m c with
    | (out, m') =>
      match run m' cs with
      | (out', m'') => (out ++ out', m'')

/-- The lexeme that the end of the text completes. A quotation has to be closed. -/
def finish : Mode → Option (List Lexeme)
  | .bare => some []
  | .word w => some [.word w]
  | .number n => some [.number n]
  | .dollar => some [.sign '$']
  | .literal _ | .quoted _ | .body _ | .bodyDollar _ => none

/-- The lexemes of a text, unless a quotation in it is left open. -/
def scan (cs : List Char) : Option (List Lexeme) :=
  match run .bare cs with
  | (out, m) => (finish m).map (out ++ ·)

/-- The lexemes of a fixed text. -/
def plain (text : String) : List Lexeme := (scan text.toList).getD []

/-- The lexemes of a whole number in decimal. -/
def integer : Int → List Lexeme
  | .ofNat n => [.number (digits n)]
  | .negSucc n => [.sign '-', .number (digits (n + 1))]

/-- From mode `m` the text completes the lexemes `out` and leaves mode `m'`. -/
def Reads (m : Mode) (cs : List Char) (out : List Lexeme) (m' : Mode) : Prop :=
  run m cs = (out, m')

theorem reads_cons {m m' m'' : Mode} {c : Char} {cs : List Char} {out out' : List Lexeme}
    (hc : step m c = (out, m')) (hcs : Reads m' cs out' m'') :
    Reads m (c :: cs) (out ++ out') m'' := by
  rw [Reads, run, hc]
  simp only [show run m' cs = (out', m'') from hcs]

theorem Reads.append {m m' m'' : Mode} {s t : List Char} {out out' : List Lexeme}
    (hs : Reads m s out m') (ht : Reads m' t out' m'') : Reads m (s ++ t) (out ++ out') m'' := by
  induction s generalizing m out with
  | nil =>
    obtain ⟨rfl, rfl⟩ := Prod.mk.inj hs
    exact ht
  | cons c s ih =>
    obtain ⟨rfl, rfl⟩ := Prod.mk.inj hs
    have hrest : Reads (step m c).2 (s ++ t) ((run (step m c).2 s).1 ++ out') m'' := ih rfl
    rw [List.append_assoc]
    exact reads_cons rfl hrest

/-- A text that leaves no lexeme open is scanned as the lexemes that it completes. -/
theorem Reads.scan_eq {cs : List Char} {out : List Lexeme} (h : Reads .bare cs out .bare) :
    scan cs = some out := by
  simp [scan, show run .bare cs = (out, .bare) from h, finish]

theorem reads_plain (text : String) (h : (run .bare text.toList).2 = .bare) :
    Reads .bare text.toList (plain text) .bare := by
  have hrun : Reads .bare text.toList (run .bare text.toList).1 .bare := Prod.ext rfl h
  rw [plain, hrun.scan_eq]
  exact hrun

/-- Characters that each extend the open lexeme are taken into it. -/
theorem reads_of_extends {mode : List Char → Mode} {p : Char → Prop}
    (hstep : ∀ acc c, p c → step (mode acc) c = ([], mode (acc ++ [c]))) {cs : List Char}
    (hcs : ∀ c ∈ cs, p c) (acc : List Char) : Reads (mode acc) cs [] (mode (acc ++ cs)) := by
  induction cs generalizing acc with
  | nil => simp [Reads, run]
  | cons c cs ih =>
    have hrest := ih (fun d hd => hcs d (List.mem_cons_of_mem c hd)) (acc ++ [c])
    rw [List.append_assoc] at hrest
    exact reads_cons (hstep acc c (hcs c List.mem_cons_self)) hrest

theorem reads_literal {cs : List Char} (h : '\'' ∉ cs) :
    Reads .bare ('\'' :: (cs ++ ['\''])) [.literal cs] .bare := by
  have hopen : Reads .bare ['\''] [] (.literal []) := rfl
  have hcs : Reads (.literal []) cs [] (.literal cs) :=
    reads_of_extends (fun acc c hc => by simp [step, hc]) (fun c hc => ne_of_mem_of_not_mem hc h) []
  have hclose : Reads (.literal cs) ['\''] [.literal cs] .bare := rfl
  exact hopen.append (hcs.append hclose)

theorem reads_quoted {cs : List Char} (h : '"' ∉ cs) :
    Reads .bare ('"' :: (cs ++ ['"'])) [.quoted cs] .bare := by
  have hopen : Reads .bare ['"'] [] (.quoted []) := rfl
  have hcs : Reads (.quoted []) cs [] (.quoted cs) :=
    reads_of_extends (fun acc c hc => by simp [step, hc]) (fun c hc => ne_of_mem_of_not_mem hc h) []
  have hclose : Reads (.quoted cs) ['"'] [.quoted cs] .bare := rfl
  exact hopen.append (hcs.append hclose)

theorem reads_body {cs : List Char} (h : '$' ∉ cs) :
    Reads .bare ("$$".toList ++ (cs ++ "$$".toList)) [.body cs] .bare := by
  have hopen : Reads .bare "$$".toList [] (.body []) := rfl
  have hcs : Reads (.body []) cs [] (.body cs) :=
    reads_of_extends (fun acc c hc => by simp [step, hc]) (fun c hc => ne_of_mem_of_not_mem hc h) []
  have hclose : Reads (.body cs) "$$".toList [.body cs] .bare := rfl
  exact hopen.append (hcs.append hclose)

theorem first_of_isNameStart {c : Char} (h : isNameStart c) : first c = ([], .word [c]) := by
  have hquote : c ≠ '\'' := by rintro rfl; simp [isNameStart] at h
  have hdouble : c ≠ '"' := by rintro rfl; simp [isNameStart] at h
  have hdollar : c ≠ '$' := by rintro rfl; simp [isNameStart] at h
  simp [first, hquote, hdouble, hdollar, h]

theorem first_of_isDigit {c : Char} (h : c.isDigit) : first c = ([], .number [c]) := by
  have hquote : c ≠ '\'' := by rintro rfl; simp at h
  have hdouble : c ≠ '"' := by rintro rfl; simp at h
  have hdollar : c ≠ '$' := by rintro rfl; simp at h
  have hunderscore : c ≠ '_' := by rintro rfl; simp at h
  have hstart : isNameStart c = false := by
    simp [isNameStart, isAlpha_eq_false_of_isDigit h, hunderscore]
  simp [first, hquote, hdouble, hdollar, hstart, h]

section
variable {c : Char} (hfirst : first c = ([.sign c], .bare))
include hfirst

/-- A word is complete at the sign after it. -/
theorem reads_word {cs : List Char} (h : IsIdentifier cs) (hc : isNamePart c = false) :
    Reads .bare (cs ++ [c]) [.word cs, .sign c] .bare := by
  obtain ⟨d, rest, rfl, hd, hrest⟩ := h
  have hword : Reads (.word [d]) rest [] (.word (d :: rest)) :=
    reads_of_extends (fun acc e he => by simp [step, he]) hrest [d]
  have hend : Reads (.word (d :: rest)) [c] [.word (d :: rest), .sign c] .bare := by
    simp [Reads, run, step, hc, next, hfirst]
  have hstart : step .bare d = ([], .word [d]) := first_of_isNameStart hd
  exact (reads_cons hstart hword).append hend

theorem reads_digits (hc : c.isDigit = false) (n : Nat) :
    Reads .bare (digits n ++ [c]) [.number (digits n), .sign c] .bare := by
  have hend : Reads (.number (digits n)) [c] [.number (digits n), .sign c] .bare := by
    simp [Reads, run, step, hc, next, hfirst]
  have hall : ∀ d ∈ digits n, d.isDigit := fun _ => isDigit_of_mem_digits
  cases hcs : digits n with
  | nil => exact absurd hcs (digits_ne_nil n)
  | cons d rest =>
    rw [hcs] at hall hend
    have hnumber : Reads (.number [d]) rest [] (.number (d :: rest)) :=
      reads_of_extends (fun acc e he => by simp [step, he])
        (fun e he => hall e (List.mem_cons_of_mem d he)) [d]
    have hstart : step .bare d = ([], .number [d]) := first_of_isDigit (hall d List.mem_cons_self)
    exact (reads_cons hstart hnumber).append hend

/-- A number is complete at the sign after it. -/
theorem reads_decimal (hc : c.isDigit = false) (n : Int) :
    Reads .bare (decimal n ++ [c]) (integer n ++ [.sign c]) .bare := by
  cases n with
  | ofNat n => exact reads_digits hfirst hc n
  | negSucc n =>
    have hminus : Reads .bare ['-'] [.sign '-'] .bare := rfl
    exact hminus.append (reads_digits hfirst hc (n + 1))

end

/-- Texts that are complete on their own are read one after another. -/
theorem reads_flatten {texts : List (List Char)} {lexemes : List (List Lexeme)}
    (h : List.Forall₂ (fun text out => Reads .bare text out .bare) texts lexemes) :
    Reads .bare texts.flatten lexemes.flatten .bare := by
  induction h with
  | nil => rfl
  | cons hfirst _ ih => exact hfirst.append ih

/-- Separators that are complete on their own are read as well. -/
theorem reads_join {α : Type} {sep : List Char} {sepOut : List Lexeme} {text : α → List Char}
    {out : α → List Lexeme} (hsep : Reads .bare sep sepOut .bare) {xs : List α}
    (h : ∀ x ∈ xs, Reads .bare (text x) (out x) .bare) :
    Reads .bare (join sep (xs.map text)) (sepOut.intercalate (xs.map out)) .bare := by
  induction xs with
  | nil => rfl
  | cons x xs ih =>
    have hx : Reads .bare (text x) (out x) .bare := h x List.mem_cons_self
    have ih := ih (fun y hy => h y (List.mem_cons_of_mem x hy))
    cases xs with
    | nil => simpa using hx
    | cons y ys =>
      simp only [List.map_cons, join_cons_cons, List.intercalate_cons_cons] at ih ⊢
      rw [List.append_assoc]
      exact hx.append (hsep.append ih)

end RetentionJobs.Sql
