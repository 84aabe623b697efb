import Grove.Criteria
import Grove.Regex.Reader

/-!
# Patterns of `like`

The constant of a `like` is a regular expression. A percent sign at an end says that
anything may stand there; an end without one is an end of the text.
-/

namespace Grove.Criteria

/-- The text between the percent signs, and whether there is one at the start and at the
end. A percent sign alone is one at the start. -/
def percentSigns (cs : List Char) : Bool × List Char × Bool :=
  let (head, body) := match cs with
    | '%' :: rest => (true, rest)
    | cs => (false, cs)
  if body.getLast? = some '%' then (head, body.dropLast, true) else (head, body, false)

def likePattern (text : String) : String :=
  let (head, body, tail) := percentSigns text.toList
  let start := if head then [] else ['^']
  let ending := if tail then [] else ['$']
  String.ofList (start ++ body ++ ending)

def readLike (value : Json) : Except CriteriaError String :=
  match value with
  | .string text =>
    match Regex.parse (likePattern text) with
    | .ok _ => .ok (likePattern text)
    | .error e => .error (.badPattern text e.message)
  | _ => .error .patternNotText

end Grove.Criteria
