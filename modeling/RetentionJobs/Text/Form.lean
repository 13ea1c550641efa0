import RetentionJobs.Text.Blank
import RetentionJobs.Text.Percent
/-! Names and values as a form sends them: pairs between ampersands, with plus signs for spaces and
percent signs for other characters. -/
namespace RetentionJobs.Text.Form

def decode (cs : List Char) : String :=
  .ofList (utf8Lossy (percentDecode (utf8Bytes (cs.map (fun c => if c = '+' then ' ' else c)))))

/-- The pairs of a form in their order. A name without a value has the empty one. -/
def pairs (cs : List Char) : List (String × String) :=
  ((cut (· == '&') cs).filter (fun piece => !piece.isEmpty)).map (fun piece =>
    let (name, value) := splitFirst '=' piece
    (decode name, decode (value.getD [])))

end RetentionJobs.Text.Form
