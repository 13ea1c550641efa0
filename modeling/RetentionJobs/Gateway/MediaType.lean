import RetentionJobs.Text.Blank
/-! Media types, as far as it takes to tell whether a body is JSON. -/
namespace RetentionJobs.Gateway.MediaType
open RetentionJobs.Text

def isToken (c : Char) : Bool :=
  c.isAlphanum || c == '!' || c == '#' || c == '$' || c == '%' || c == '&' || c == '\x27' ||
  c == '*' || c == '+' || c == '-' || c == '.' || c == '^' || c == '_' || c == '\x60' ||
  c == '|' || c == '~'

def isQuotable (c : Char) : Bool := 31 < c.toNat && c.toNat != 127

inductive State where
  /-- Before a name, where spaces may stand. -/
  | start
  | name
  | value
  | bare
  /-- Right after an opening quote, where a quote belongs to the value. -/
  | opened
  | quoted
  /-- After a closing quote, where spaces may stand. -/
  | closed
  deriving DecidableEq, Repr

def State.step : State → Char → Option State
  | .start, c =>
    if c = ' ' then some .start else if isToken c then some .name else none
  | .name, c => if isToken c then some .name else if c = '=' then some .value else none
  | .value, c => if c = '"' then some .opened else if isToken c then some .bare else none
  | .bare, c => if isToken c then some .bare else if c = ';' then some .start else none
  | .opened, c => if isQuotable c then some .quoted else none
  | .quoted, c => if c = '"' then some .closed else if isQuotable c then some .quoted else none
  | .closed, c => if c = ' ' then some .closed else if c = ';' then some .start else none

/-- Whether the parameters after a semicolon are well formed. -/
def parametersFrom (state : State) : List Char → Bool
  | [] => match state with
    | .start | .value | .bare | .closed => true
    | .name | .opened | .quoted => false
  | c :: cs =>
    match state.step c with
    | none => false
    | some state => parametersFrom state cs

def lower (cs : List Char) : List Char := cs.map Char.toLower

/-- What stands before and after the last plus sign that does not come first. -/
def splitSuffix (subtype : List Char) : List Char × Option (List Char) :=
  match subtype with
  | [] => ([], none)
  | c :: cs =>
    if cs.contains '+' then
      let r := cs.reverse
      (c :: ((r.dropWhile (· ≠ '+')).drop 1).reverse, some (r.takeWhile (· ≠ '+')).reverse)
    else (subtype, none)

/-- Whether a type and its subtype stand for JSON: the subtype is `json` or is put in the form of
`json`. -/
def namesJson (type subtype : List Char) : Bool :=
  let (base, suffix) := splitSuffix (lower subtype)
  lower type == "application".toList && (base == "json".toList || suffix == some "json".toList)

def isJson (text : String) : Bool :=
  let (essence, parameters) := splitFirst ';' text.toList
  match splitFirst '/' essence with
  | (type, some subtype) =>
    !type.isEmpty && type.all isToken && !subtype.isEmpty && subtype.all isToken &&
      (match parameters with
       | none => true
       | some cs => parametersFrom .start cs) &&
      namesJson type subtype
  | _ => false

end RetentionJobs.Gateway.MediaType
