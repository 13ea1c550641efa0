import RetentionJobs.Text.Decimal
import RetentionJobs.Text.Hexadecimal
/-! Writing TOML values. A string takes the plainest of its forms: on one line before several, and
in double quotes before single ones, as long as nothing in it has to be escaped. -/
namespace RetentionJobs.Toml
open RetentionJobs.Text

def longestRun (c : Char) (cs : List Char) : Nat :=
  (cs.foldl (fun (best, run) d => if d = c then (max best (run + 1), run + 1) else (best, 0))
    (0, 0)).1

/-- Control characters that only an escape can write. -/
def needsCode (c : Char) : Bool := c != '\t' && c != '\n' && (c.toNat < 0x20 || c.toNat == 0x7F)

inductive Form where
  | basic | literal | longBasic | longLiteral
  deriving DecidableEq, Repr

def Form.choose (cs : List Char) : Form :=
  let codes := cs.any needsCode
  let breaks := cs.contains '\n'
  let backslashes := cs.contains '\\'
  let doubles := longestRun '"' cs
  let singles := longestRun '\x27' cs
  if !codes && !backslashes && doubles == 0 && !breaks then .basic
  else if !codes && singles == 0 && !breaks then .literal
  else if !codes && !backslashes && doubles ≤ 2 then .longBasic
  else if !codes && singles ≤ 2 then .longLiteral
  else if breaks then .longBasic
  else .basic

def code (c : Char) : List Char :=
  if c = '"' then ['\\', '"']
  else if c = '\\' then ['\\', '\\']
  else if c = '\n' then ['\\', 'n']
  else if c = '\t' then ['\\', 't']
  else if c = '\r' then ['\\', 'r']
  else if c.toNat = 8 then ['\\', 'b']
  else if c.toNat = 12 then ['\\', 'f']
  else ['\\', 'u', '0', '0', hexDigit .upper (c.toNat / 16), hexDigit .upper (c.toNat % 16)]

/-- The inside of a basic string. On several lines, line breaks are kept and two quotes in a row do
not have to be escaped. `run` counts the quotes right before. -/
def escaped (long : Bool) (run : Nat) : List Char → List Char
  | [] => []
  | c :: cs =>
    if c = '"' then
      if long ∧ run < 2 then c :: escaped long (run + 1) cs
      else code c ++ escaped long 0 cs
    else if c = '\n' ∧ long then c :: escaped long 0 cs
    else if c = '\\' ∨ c.toNat < 0x20 ∨ c.toNat = 0x7F then code c ++ escaped long 0 cs
    else c :: escaped long 0 cs

/-- A string in its form. One with a line break starts on a line of its own. -/
def quoted (s : String) : List Char :=
  let cs := s.toList
  let start : List Char := if cs.contains '\n' then ['\n'] else []
  match Form.choose cs with
  | .basic => '"' :: escaped false 0 cs ++ ['"']
  | .literal => '\x27' :: cs ++ ['\x27']
  | .longBasic => '"' :: '"' :: '"' :: start ++ escaped true 0 cs ++ ['"', '"', '"']
  | .longLiteral =>
    '\x27' :: '\x27' :: '\x27' :: start ++ cs ++ ['\x27', '\x27', '\x27']

/-- An array of strings. From two on, each stands on a line of its own. -/
def quotedArray : List String → List Char
  | [] => ['[', ']']
  | [s] => '[' :: quoted s ++ [']']
  | ss =>
    '[' :: '\n' ::
      ss.flatMap (fun s => [' ', ' ', ' ', ' '] ++ quoted s ++ [',', '\n']) ++ [']']

end RetentionJobs.Toml
