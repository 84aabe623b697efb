import Grove.Json.Printer

/-!
# Criteria

What selects records: comparisons of a field with a constant, ranges, and conjunctions
and disjunctions of these. A missing criteria selects everything, so functions that take
one take an `Option`.

The tree can come from a caller and can be as deep as the caller likes. Everything that
recurses over it is preceded by `checkHeight`, and `height` itself walks with an explicit
stack.
-/

namespace Grove

/-- How a comparison relates a field to a constant. -/
inductive Comparison where
  | eq | ne | gt | gte | lt | lte | isIn | notIn | like
deriving DecidableEq, Inhabited

namespace Comparison

def symbol : Comparison → String
  | .eq => "="
  | .ne => "!="
  | .gt => ">"
  | .gte => ">="
  | .lt => "<"
  | .lte => "<="
  | .isIn => "in"
  | .notIn => "nin"
  | .like => "like"

def all : List Comparison := [.eq, .ne, .gt, .gte, .lt, .lte, .isIn, .notIn, .like]

def ofSymbol? (s : String) : Option Comparison := all.find? (·.symbol == s)

theorem ofSymbol?_symbol (op : Comparison) : ofSymbol? op.symbol = some op := by
  cases op <;> decide

end Comparison

inductive Connective where
  | and | or
deriving DecidableEq, Inhabited

inductive Criteria where
  | compare (op : Comparison) (field : String) (value : Json)
  | logical (op : Connective) (operands : List Criteria)
  | between (field : String) (lower upper : Json)
deriving Inhabited

inductive CriteriaError where
  | tooDeep (levels : Nat)
  | emptyField
  | operatorField (field : String)
  | patternNotText
  | badPattern (pattern reason : String)
  | noOperands
  | listRequired (op : Comparison)
  | badNestedField (field : String)
  | nestedNull (field : String)
  | nestedOperator (op : Comparison) (field : String)
deriving DecidableEq

namespace Criteria

def maxHeight : Nat := 64

def eq (field : String) (value : Json) : Criteria := .compare .eq field value

/-- All of the given criteria together: nothing for none of them, and the criteria itself
for one. -/
def allOf : List Criteria → Option Criteria
  | [] => none
  | [c] => some c
  | cs => some (.logical .and cs)

mutual

def size : Criteria → Nat
  | .logical _ operands => sizes operands + 1
  | _ => 1

def sizes : List Criteria → Nat
  | [] => 0
  | c :: cs => size c + sizes cs

end

/-- The greatest level on a stack of nodes with their levels, or `deepest` if that is
greater. Each round takes one node off and puts its operands on, so the number of nodes
below the stack bounds the rounds. -/
def deepestLevel : Nat → List (Criteria × Nat) → Nat → Nat
  | fuel + 1, (.logical _ operands, level) :: stack, deepest =>
    deepestLevel fuel (operands.map (·, level + 1) ++ stack) (max deepest level)
  | fuel + 1, (_, level) :: stack, deepest => deepestLevel fuel stack (max deepest level)
  | _, _, deepest => deepest

/-- How many levels the tree has; a leaf has one. -/
def height (c : Criteria) : Nat := deepestLevel c.size [(c, 1)] 0

/-- Refuses a tree that is too deep to recurse over. -/
def checkHeight (c : Criteria) : Except CriteriaError Unit :=
  if maxHeight < c.height then .error (.tooDeep c.height) else .ok ()

/-- Refuses field names that a backend would not take for a field. -/
def checkName (field : String) : Except CriteriaError Unit :=
  if field = "" then .error .emptyField
  else if field.toList.head? = some '$' then .error (.operatorField field)
  else .ok ()

mutual

def text : Criteria → String
  | .compare op field value => field ++ " " ++ op.symbol ++ " " ++ value.compact
  | .logical op operands =>
    let separator := match op with
      | .and => " AND "
      | .or => " OR "
    "(" ++ String.intercalate separator (texts operands) ++ ")"
  | .between field lower upper =>
    field ++ " BETWEEN " ++ lower.compact ++ " AND " ++ upper.compact

def texts : List Criteria → List String
  | [] => []
  | c :: cs => text c :: texts cs

end

end Criteria

def CriteriaError.message : CriteriaError → String
  | .tooDeep levels =>
    "criteria nested " ++ toString levels ++ " levels deep, limit is " ++
      toString Criteria.maxHeight
  | .emptyField => "empty field name"
  | .operatorField field => "invalid field name '" ++ field ++ "'"
  | .patternNotText => "like requires a string value"
  | .badPattern pattern reason => "like pattern '" ++ pattern ++ "': " ++ reason
  | .noOperands => "logical operator without operands"
  | .listRequired op => op.symbol ++ " requires a list value"
  | .badNestedField field => "invalid nested field '" ++ field ++ "'"
  | .nestedNull field => "null comparison on nested field '" ++ field ++ "'"
  | .nestedOperator op field =>
    "operator " ++ op.symbol ++ " is not supported on nested field '" ++ field ++ "'"

end Grove
