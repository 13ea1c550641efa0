import RetentionJobs.Text.Blank
import RetentionJobs.Text.Decimal
import RetentionJobs.Text.Hexadecimal
/-! The address that the gateway listens on. -/
namespace RetentionJobs.Gateway
open RetentionJobs.Text

/-- An address of version 4 with its four bytes, or of version 6 with its eight groups of 16 bits
and its scope, each with a port. -/
inductive SocketAddress where
  | v4 (bytes : List Nat) (port : Nat)
  | v6 (groups : List Nat) (scope : Nat) (port : Nat)
  deriving DecidableEq, Repr

namespace SocketAddress

abbrev Reader (α : Type) := List Char → Option (α × List Char)

def after (c : Char) : List Char → Option (List Char)
  | [] => none
  | d :: cs => if d = c then some cs else none

/-- A number below `bound` in digits without a limit. -/
def numberBelow (bound : Nat) : Reader Nat := fun cs => do
  let n ← readDigits? (cs.takeWhile Char.isDigit)
  if n < bound then return (n, cs.dropWhile Char.isDigit) else none

/-- A byte in at most three digits, without leading zeros. -/
def byte : Reader Nat := fun cs => do
  let ds := cs.takeWhile Char.isDigit
  let n ← readDigits? ds
  if ds.length ≤ 3 ∧ n < 256 ∧ (ds.head? = some '0' → ds.length = 1) then
    return (n, cs.dropWhile Char.isDigit)
  else none

def bytes : Reader (List Nat) := fun cs => do
  let (a, cs) ← byte cs
  let (b, cs) ← byte (← after '.' cs)
  let (c, cs) ← byte (← after '.' cs)
  let (d, cs) ← byte (← after '.' cs)
  return ([a, b, c, d], cs)

/-- A group of one to four hexadecimal digits. -/
def group : Reader Nat := fun cs =>
  let ds := cs.takeWhile (fun c => (hexValue? c).isSome)
  if 1 ≤ ds.length ∧ ds.length ≤ 4 then
    some (ds.foldl (fun n c => n * 16 + (hexValue? c).getD 0) 0, cs.drop ds.length)
  else none

/-- As many groups as there are, at most `limit`, with colons between them. The last two may be
written as four bytes, which the second part of the answer tells. -/
def groups (first : Bool) : Nat → List Char → List Nat × Bool × List Char
  | 0, cs => ([], false, cs)
  | limit + 1, cs =>
    match if first then some cs else after ':' cs with
    | none => ([], false, cs)
    | some front =>
      match if limit = 0 then none else bytes front with
      | some ([a, b, c, d], rest) => ([a * 256 + b, c * 256 + d], true, rest)
      | _ =>
        match group front with
        | none => ([], false, cs)
        | some (g, rest) =>
          let (gs, embedded, rest) := groups false limit rest
          (g :: gs, embedded, rest)

/-- Eight groups, of which a run of zeros may be left out once. -/
def eightGroups : Reader (List Nat) := fun cs =>
  let (front, embedded, cs) := groups true 8 cs
  if front.length = 8 then some (front, cs)
  else if embedded then none
  else do
    let cs ← after ':' cs
    let cs ← after ':' cs
    let (back, _, cs) := groups true (7 - front.length) cs
    return (front ++ List.replicate (8 - front.length - back.length) 0 ++ back, cs)

def port : Reader Nat := fun cs => do numberBelow 65536 (← after ':' cs)

def readV4 : Reader SocketAddress := fun cs => do
  let (bs, cs) ← bytes cs
  let (p, cs) ← port cs
  return (.v4 bs p, cs)

/-- A scope after a percent sign, if there is one. -/
def scope : Reader Nat
  | '%' :: cs => numberBelow 4294967296 cs
  | cs => some (0, cs)

def readV6 : Reader SocketAddress := fun cs => do
  let (gs, cs) ← eightGroups (← after '[' cs)
  let (s, cs) ← scope cs
  let (p, cs) ← port (← after ']' cs)
  return (.v6 gs s p, cs)

def ofText? (text : String) : Option SocketAddress :=
  let whole (r : Option (SocketAddress × List Char)) : Option SocketAddress :=
    match r with
    | some (a, []) => some a
    | _ => none
  match readV4 text.toList with
  | some r => whole (some r)
  | none => whole (readV6 text.toList)

/-- Whether an address is reached from its own machine only. -/
def isLoopback : SocketAddress → Bool
  | v4 bytes _ => bytes.head? == some 127
  | v6 groups _ _ => groups == [0, 0, 0, 0, 0, 0, 0, 1]

end SocketAddress

def loopbackHosts : List String := ["127.0.0.1", "localhost", "::1", "[::1]", "0:0:0:0:0:0:0:1"]

def isPublicHost (host : String) : Bool := !loopbackHosts.contains host

end RetentionJobs.Gateway
