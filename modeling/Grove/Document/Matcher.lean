import Grove.Document.Filter
import Grove.Text

/-!
# Matching documents

A filter is compiled once (`Matcher.ofFilter`) and then put to every record. A field of a
filter is a path: each name after a point is looked up in the object found before it. A
field that is not there counts as null.

Equality looks into lists: a field that holds a list equals a constant that is no list if
one of its items does. Numbers are compared by their binary64 value when they stand on
their own, and as they are written when they are part of something larger. Order is only
between two numbers, two strings or two booleans.
-/

namespace Grove

inductive FieldCheck where
  | equals (value : Json)
  | differs (value : Json)
  /-- The field lies on the given side of the value, or is equal if that is included. -/
  | ordered (side : Ordering) (inclusive : Bool) (value : Json)
  | oneOf (values : List Json)
  | noneOf (values : List Json)
  | matchesPattern (pattern : Regex)
deriving Inhabited

inductive Matcher where
  | all (parts : List Matcher)
  | any (parts : List Matcher)
  | field (path : List String) (tests : List FieldCheck)
deriving Inhabited

inductive FilterError where
  | tooNested
  | notAnObject
  | notAList (operator : String)
  | unknownOperator (operator : String)
  | patternNotText
  | badPattern (e : RegexError)
deriving DecidableEq

def FilterError.message : FilterError → String
  | .tooNested => "filter nested deeper than " ++ toString Criteria.maxHeight
  | .notAnObject => "filter document must be an object"
  | .notAList operator => operator ++ " expects an array"
  | .unknownOperator operator => "unknown operator " ++ operator
  | .patternNotText => "$regex expects a string"
  | .badPattern e => e.message

namespace Json

/-- Equality of values that stand on their own: numbers by binary64 value. -/
def equalScalar : Json → Json → Bool
  | .number a, .number b => a.toDouble.same b.toDouble
  | a, b => a.same b

/-- Whether a field equals a constant, or one of its items does. -/
def equalField (field : Option Json) (target : Json) : Bool :=
  match field, target with
  | none, target => target.isNull
  | some (.array items), .array targets => (Json.array items).equalScalar (.array targets)
  | some (.array items), target => items.any (·.equalScalar target)
  | some value, target => value.equalScalar target

def order? : Json → Json → Option Ordering
  | .number a, .number b => some (a.cmp b)
  | .string a, .string b => some (compare a b)
  | .bool a, .bool b => some (compare a b)
  | _, _ => none

def patternText? : Json → Option String
  | .string s => some s
  | .number n => some n.text
  | .bool b => some (Json.bool b).compact
  | _ => none

end Json

namespace FieldCheck

def accepts (field : Option Json) : FieldCheck → Bool
  | .equals value => Json.equalField field value
  | .differs value => !Json.equalField field value
  | .ordered side inclusive value =>
    match field.bind (·.order? value) with
    | some .eq => inclusive
    | some o => o == side
    | none => false
  | .oneOf values => values.any (Json.equalField field)
  | .noneOf values => !values.any (Json.equalField field)
  | .matchesPattern pattern =>
    match field.bind Json.patternText? with
    | some text => pattern.isMatch text
    | none => false

def ofOperator (operator : String) (argument : Json) : Except FilterError FieldCheck :=
  match operator with
  | "$eq" => .ok (.equals argument)
  | "$ne" => .ok (.differs argument)
  | "$gt" => .ok (.ordered .gt false argument)
  | "$gte" => .ok (.ordered .gt true argument)
  | "$lt" => .ok (.ordered .lt false argument)
  | "$lte" => .ok (.ordered .lt true argument)
  | "$in" =>
    match argument with
    | .array items => .ok (.oneOf items)
    | _ => .error (.notAList operator)
  | "$nin" =>
    match argument with
    | .array items => .ok (.noneOf items)
    | _ => .error (.notAList operator)
  | "$regex" =>
    match argument with
    | .string pattern =>
      match Regex.parse pattern with
      | .ok r => .ok (.matchesPattern r)
      | .error e => .error (.badPattern e)
    | _ => .error .patternNotText
  | _ => .error (.unknownOperator operator)

end FieldCheck

namespace Matcher

def isOperator (name : String) : Bool := name.toList.head? == some '$'

/-- The tests of a field. A value whose members are all operators is a list of tests, and
any other value is one the field must equal. -/
def fieldChecks : Json → Except FilterError (List FieldCheck)
  | .object members =>
    if !members.isEmpty && members.all fun m => isOperator m.1 then
      members.mapM fun m => FieldCheck.ofOperator m.1 m.2
    else .ok [.equals (.object members)]
  | value => .ok [.equals value]

mutual

/-- Compiles a filter that stands `depth` levels deep. -/
def ofFilterAt (depth : Nat) : Json → Except FilterError Matcher
  | .object members =>
    if Criteria.maxHeight < depth then .error .tooNested
    else (ofMembers depth members).map .all
  | _ => if Criteria.maxHeight < depth then .error .tooNested else .error .notAnObject

def ofMembers (depth : Nat) : List (String × Json) → Except FilterError (List Matcher)
  | [] => .ok []
  | (name, value) :: rest => do
    let first ← ofMember depth name value
    let others ← ofMembers depth rest
    return first :: others

def ofMember (depth : Nat) (name : String) : Json → Except FilterError Matcher
  | .array items =>
    if name = "$and" then (ofItems (depth + 1) items).map .all
    else if name = "$or" then (ofItems (depth + 1) items).map .any
    else if isOperator name then .error (.unknownOperator name)
    else .ok (.field (Text.split '.' name) [.equals (.array items)])
  | value =>
    if name = "$and" || name = "$or" then .error (.notAList name)
    else if isOperator name then .error (.unknownOperator name)
    else (fieldChecks value).map (.field (Text.split '.' name))

def ofItems (depth : Nat) : List Json → Except FilterError (List Matcher)
  | [] => .ok []
  | item :: rest => do
    let first ← ofFilterAt depth item
    let others ← ofItems depth rest
    return first :: others

end

def ofFilter (filter : Json) : Except FilterError Matcher := ofFilterAt 1 filter

def walk (value : Json) : List String → Option Json
  | [] => some value
  | name :: names =>
    match value with
    | .object members => (members.lookup name).bind fun inner => walk inner names
    | _ => none

def fieldAt (record : Record) : List String → Option Json
  | [] => none
  | path => walk (.object record.fields) path

mutual

def accepts (record : Record) : Matcher → Bool
  | .all parts => acceptsAll record parts
  | .any parts => acceptsAny record parts
  | .field path tests => tests.all (·.accepts (fieldAt record path))

def acceptsAll (record : Record) : List Matcher → Bool
  | [] => true
  | m :: ms => accepts record m && acceptsAll record ms

def acceptsAny (record : Record) : List Matcher → Bool
  | [] => false
  | m :: ms => accepts record m || acceptsAny record ms

end

end Matcher

end Grove
