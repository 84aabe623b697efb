import Grove.Resource
import Grove.Criteria.Query
import Grove.Failure
import Grove.Window

/-!
# What a request selects

A request selects records by the parameters of its path and by a query text, and asks for
an order, a window and related records. The path always restricts the query: its
comparisons come first in one conjunction, and the query is one more operand of it.
-/

namespace Grove

/-- Named texts of a request: the parameters of its path or of its query string. -/
abbrev Params := List (String × String)

namespace Resource

/-- The path parameters in the order of the path, the resource's own last. -/
def pathNames (r : Resource) : List String := r.ancestorParams ++ [r.ownParam]

def pathFactors (r : Resource) (params : Params) : List Criteria :=
  r.pathNames.filterMap fun name =>
    (params.lookup name).map fun v => .eq (r.fieldOf name) (.string v)

def pathRestriction (r : Resource) (params : Params) : Option Criteria :=
  Criteria.allOf (r.pathFactors params)

end Resource

namespace Criteria

/-- The criteria of a path and those of a query together. A conjunction that the path
already is takes the query as one more operand. -/
def restrict : Option Criteria → Option Criteria → Option Criteria
  | none, q => q
  | p, none => p
  | some (.logical .and operands), some q => some (.logical .and (operands ++ [q]))
  | some p, some q => some (.logical .and [p, q])

/-- The criteria of a path with a query text, which may be missing or blank. -/
def withQuery (path : Option Criteria) (q : Option String) : Except Failure (Option Criteria) :=
  match (q.map Text.trim).filter (· ≠ "") with
  | none => .ok (restrict path none)
  | some text =>
    match Query.parse text with
    | .ok c => .ok (restrict path (some c))
    | .error e => .error (.ofQuery e)

end Criteria

namespace Paging

/-- A 32-bit number among the parameters; a blank one is missing. -/
def number (params : Params) (name : String) : Except Failure (Option Nat) :=
  match (params.lookup name).map Text.trim with
  | none => .ok none
  | some text =>
    if text = "" then .ok none
    else
      match Text.readNat? Text.maxUnsigned32 text with
      | some n => .ok (some n)
      | none =>
        .error (.malformedCriteria
          (name ++ " must be a non-negative integer, got '" ++ text ++ "'"))

def ofParams (params : Params) : Except Failure Paging := do
  let limit ← number params "_limit"
  let offset ← number params "_offset"
  let page ← number params "_page"
  return {
    sort := (params.lookup "_sort").elim [] OrderKey.readAll
    limit, offset, page
    fetch := (params.lookup "_fetch").elim [] Text.entries }

end Paging

def wantsEnvelope (params : Params) : Bool :=
  match params.lookup "_meta" with
  | none => false
  | some v => ["", "true", "1"].contains (Text.lower (Text.trim v))

end Grove
