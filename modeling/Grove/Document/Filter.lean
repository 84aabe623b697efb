import Grove.Criteria.Like
import Grove.Json

/-!
# Filters of documents

Document stores take a filter that is a document itself: a member with the name of a
field tests that field, and members whose names start with a dollar sign are operators.
The empty document matches everything. Equality has no operator; its constant stands in
the place of a test.
-/

namespace Grove

/-- The operator of a comparison other than equality. -/
def Comparison.filterOperator : Comparison → String
  | .eq => "$eq"
  | .ne => "$ne"
  | .gt => "$gt"
  | .gte => "$gte"
  | .lt => "$lt"
  | .lte => "$lte"
  | .isIn => "$in"
  | .notIn => "$nin"
  | .like => "$regex"

def Connective.filterOperator : Connective → String
  | .and => "$and"
  | .or => "$or"

namespace Criteria

def fieldCheck (op : Comparison) (value : Json) : Except CriteriaError Json :=
  let operation (v : Json) : Json := .object [(op.filterOperator, v)]
  match op, value with
  | .eq, _ => .ok value
  | .like, _ => (readLike value).map fun pattern => operation (.string pattern)
  | .isIn, .array _ | .notIn, .array _ => .ok (operation value)
  | .isIn, _ | .notIn, _ => .error (.listRequired op)
  | _, _ => .ok (operation value)

mutual

def toFilter : Criteria → Except CriteriaError Json
  | .compare op field value => do
    checkName field
    return .object [(field, ← fieldCheck op value)]
  | .between field lower upper => do
    checkName field
    return .object [(field, .object [("$gte", lower), ("$lte", upper)])]
  | .logical op operands =>
    match operands with
    | [] => .error .noOperands
    | operands => do return .object [(op.filterOperator, .array (← toFilters operands))]

def toFilters : List Criteria → Except CriteriaError (List Json)
  | [] => .ok []
  | c :: cs => do
    let first ← toFilter c
    let rest ← toFilters cs
    return first :: rest

end

def filter : Option Criteria → Except CriteriaError Json
  | none => .ok (.object [])
  | some c => do
    checkHeight c
    toFilter c

end Criteria

end Grove
