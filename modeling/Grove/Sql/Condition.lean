import Grove.Criteria.Like
import Grove.Sql.Fragment
import Grove.Json.Printer

/-!
# Conditions

The condition of a statement is a tree of tests of columns. A field with points in its
name is a path into a JSON column, where only equality and inequality are understood;
both are containment, so a list there matches any of its items.

Null compares with nothing. Where a missing value has to satisfy a test, the condition
says so in words: equality with null asks for null, inequality is distinctness, and lists
are tested without their nulls and with an arm for null beside them.
-/

namespace Grove

namespace Sql

inductive Operator where
  | eq | ne | gt | gte | lt | lte | isIn | notIn | matchesPattern | contains | lacks
deriving DecidableEq, Inhabited

def Operator.symbol : Operator → String
  | .eq => "="
  | .ne => "<>"
  | .gt => ">"
  | .gte => ">="
  | .lt => "<"
  | .lte => "<="
  | .isIn => "IN"
  | .notIn => "NOT IN"
  | .matchesPattern => "~"
  | .contains => "@>"
  | .lacks => "@>"

inductive Condition where
  | all
  | test (column : String) (op : Operator) (value : Json)
  | and (parts : List Condition)
  | or (parts : List Condition)
deriving Inhabited

namespace Condition

/-- The test that a path holds the value, where a missing step is a no. -/
def containment (column : String) (value : Json) : Statement :=
  let (root, path) := match Text.split '.' column with
    | root :: path => (root, path)
    | [] => (column, [])
  [.word "COALESCE(", .name root, .word " #> ", .path path, .word " @> CAST(",
    .parameter (.string value.compact) none, .word " AS JSONB), FALSE)"]

def comparison (column : String) (symbol : String) (value : Json) : Statement :=
  [.name column, .word (" " ++ symbol ++ " "), .parameter value (some column)]

/-- The test that the column is one of the values, none of which is null. -/
def membership (column : String) (op : Operator) (values : List Json) : Statement :=
  [.name column, .word (" " ++ op.symbol ++ " (")] ++
    Statement.separate ", " (values.map fun v => [.parameter v (some column)]) ++ [.word ")"]

def isNull (column : String) : Statement := [.name column, .word " IS NULL"]

def isNotNull (column : String) : Statement := [.name column, .word " IS NOT NULL"]

/-- The test that the column is one of the values, or that it is none of them. -/
def listTest (column : String) (op : Operator) (items : List Json) : Statement :=
  let values := items.filter fun v => !v.isNull
  let hasNull := items.any Json.isNull
  let member := membership column op values
  match op, values.isEmpty, hasNull with
  | .isIn, true, false => [.word "FALSE"]
  | .isIn, true, true => isNull column
  | .isIn, false, false => member
  | .isIn, false, true => [.word "("] ++ member ++ [.word " OR "] ++ isNull column ++ [.word ")"]
  | _, true, false => [.word "TRUE"]
  | _, true, true => isNotNull column
  | _, false, false => [.word "("] ++ isNull column ++ [.word " OR "] ++ member ++ [.word ")"]
  | _, false, true => [.word "("] ++ isNotNull column ++ [.word " AND "] ++ member ++ [.word ")"]

def testStatement (column : String) (op : Operator) (value : Json) : Statement :=
  match op, value with
  | .contains, _ => containment column value
  | .lacks, _ => .word "NOT " :: containment column value
  | .eq, .null => isNull column
  | .ne, .null => isNotNull column
  | .isIn, .array items | .notIn, .array items => listTest column op items
  | .ne, _ => comparison column "IS DISTINCT FROM" value
  | .matchesPattern, _ =>
    [.word "CAST(", .name column, .word " AS TEXT) ~ ", .parameter value none]
  | _, _ => comparison column op.symbol value

mutual

def expression : Condition → Statement
  | .all => [.word "TRUE"]
  | .test column op value => testStatement column op value
  | .and parts => .word "(" :: Statement.separate " AND " (expressions parts) ++ [.word ")"]
  | .or parts => .word "(" :: Statement.separate " OR " (expressions parts) ++ [.word ")"]

def expressions : List Condition → List Statement
  | [] => []
  | c :: cs => expression c :: expressions cs

end

/-- The clause that restricts a statement to the condition. -/
def clause : Condition → Statement
  | .all => []
  | c => .word " WHERE " :: expression c

end Condition

end Sql

namespace Criteria

open Sql (Condition Operator)

def isSimpleSegment (s : String) : Bool :=
  s ≠ "" && s.toList.all fun c => c.isAlphanum || c = '_'

def nestedCondition (op : Comparison) (field : String) (value : Json) :
    Except CriteriaError Condition :=
  if !(Text.split '.' field).all isSimpleSegment then .error (.badNestedField field)
  else if value.isNull then .error (.nestedNull field)
  else
    match op with
    | .eq => .ok (.test field .contains value)
    | .ne => .ok (.test field .lacks value)
    | op => .error (.nestedOperator op field)

def flatCondition (op : Comparison) (field : String) (value : Json) :
    Except CriteriaError Condition :=
  match op, value with
  | .eq, _ => .ok (.test field .eq value)
  | .ne, _ => .ok (.test field .ne value)
  | .gt, _ => .ok (.test field .gt value)
  | .gte, _ => .ok (.test field .gte value)
  | .lt, _ => .ok (.test field .lt value)
  | .lte, _ => .ok (.test field .lte value)
  | .isIn, .array _ => .ok (.test field .isIn value)
  | .notIn, .array _ => .ok (.test field .notIn value)
  | .isIn, _ | .notIn, _ => .error (.listRequired op)
  | .like, _ => (readLike value).map fun pattern => .test field .matchesPattern (.string pattern)

mutual

def lowerCondition : Criteria → Except CriteriaError Condition
  | .compare op field value => do
    checkName field
    if Text.has field '.' then nestedCondition op field value else flatCondition op field value
  | .between field lower upper => do
    checkName field
    return .and [.test field .gte lower, .test field .lte upper]
  | .logical op operands =>
    match operands with
    | [] => .error .noOperands
    | operands => do
      let parts ← lowerConditions operands
      match op with
      | .and => return .and parts
      | .or => return .or parts

def lowerConditions : List Criteria → Except CriteriaError (List Condition)
  | [] => .ok []
  | c :: cs => do
    let first ← lowerCondition c
    let rest ← lowerConditions cs
    return first :: rest

end

def condition : Option Criteria → Except CriteriaError Condition
  | none => .ok .all
  | some c => do
    checkHeight c
    lowerCondition c

end Criteria

end Grove
