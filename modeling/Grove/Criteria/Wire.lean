import Grove.Criteria

/-!
# Criteria as JSON

A comparison is an object with `op`, `var` and `val`, a connective one with `op` and
`args`, a range one with `var` and `between`. Nothing names the form; a reader tries the
three in that order and takes the first whose members are there and of the right kind.
Other members are passed over.
-/

namespace Grove

def Connective.symbol : Connective → String
  | .and => "and"
  | .or => "or"

def Connective.ofSymbol? (s : String) : Option Connective :=
  if s = "and" then some .and else if s = "or" then some .or else none

namespace Criteria

mutual

def toJson : Criteria → Json
  | .compare op field value =>
    .object [("op", .string op.symbol), ("val", value), ("var", .string field)]
  | .logical op operands =>
    .object [("args", .array (operandsToJson operands)), ("op", .string op.symbol)]
  | .between field lower upper =>
    .object [("between", .object [("from", lower), ("to", upper)]), ("var", .string field)]

def operandsToJson : List Criteria → List Json
  | [] => []
  | c :: cs => toJson c :: operandsToJson cs

end

/-- The name of an operator: text, or an object whose only member is null and has that
name. -/
def operatorName? : Json → Option String
  | .string s => some s
  | .object [(name, .null)] => some name
  | _ => none

/-- The two ends of a range: members of an object, or an array of two. -/
def bounds? : Json → Option (Json × Json)
  | .object members => do some (← members.lookup "from", ← members.lookup "to")
  | .array [lower, upper] => some (lower, upper)
  | _ => none

def comparison? (members : List (String × Json)) : Option Criteria := do
  let op ← Comparison.ofSymbol? (← operatorName? (← members.lookup "op"))
  let field ← (← members.lookup "var").string?
  let value ← members.lookup "val"
  some (.compare op field value)

def range? (members : List (String × Json)) : Option Criteria := do
  let field ← (← members.lookup "var").string?
  let (lower, upper) ← bounds? (← members.lookup "between")
  some (.between field lower upper)

mutual

def ofJson? : Json → Option Criteria
  | .object members =>
    match comparison? members with
    | some c => some c
    | none =>
      match (members.lookup "op").bind operatorName? |>.bind Connective.ofSymbol?,
          operandsIn? members with
      | some op, some operands => some (.logical op operands)
      | _, _ => range? members
  | _ => none

/-- The operands in the first member called `args`. -/
def operandsIn? : List (String × Json) → Option (List Criteria)
  | [] => none
  | (name, value) :: rest => if name = "args" then operands? value else operandsIn? rest

def operands? : Json → Option (List Criteria)
  | .array items => operandList? items
  | _ => none

def operandList? : List Json → Option (List Criteria)
  | [] => some []
  | item :: rest => do
    let c ← ofJson? item
    let cs ← operandList? rest
    some (c :: cs)

end

end Criteria

end Grove
