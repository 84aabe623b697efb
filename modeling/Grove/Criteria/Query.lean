import Grove.Criteria.Token

/-!
# The query language

    name like "jo%" AND (age >= 21 OR status in (1, 2)) AND created between 10 and 20

A query is a disjunction of conjunctions of units, and a unit is a comparison or a query
in parentheses. Units joined by one connective make one node, and a unit alone makes none.
Keywords are read in any case. Whatever is not read to its end is refused.

Parentheses may nest `Criteria.maxHeight` deep. The parser of a unit counts down from
there, and that is why it ends. Each parser returns what it read and the tokens after it.
-/

namespace Grove.Query

def keywords : List String := ["not", "in", "like", "between"]

def isKeyword (s : String) : Bool := keywords.contains (Text.lower s)

def afterKeyword? (keyword : String) : List Token → Option (List Token)
  | .word s :: rest => if Text.lower s = keyword then some rest else none
  | _ => none

def expect (wanted : Token) : List Token → Except QueryError (List Token)
  | t :: rest => if t = wanted then .ok rest else .error (.expectedToken wanted (some t))
  | [] => .error (.expectedToken wanted none)

/-- A constant: quoted text, a number, `true`, `false`, `null`, or a word, which stands
for its own text. -/
def value : List Token → Except QueryError (Json × List Token)
  | .text s :: rest => .ok (.string s, rest)
  | .number n :: rest => .ok (.number n, rest)
  | .word s :: rest =>
    match Text.lower s with
    | "true" => .ok (.bool true, rest)
    | "false" => .ok (.bool false, rest)
    | "null" => .ok (.null, rest)
    | _ => if isKeyword s then .error (.keywordAsValue s) else .ok (.string s, rest)
  | ts => .error (.expectedValue ts.head?)

def listTail : Nat → List Token → Except QueryError (List Json × List Token)
  | fuel + 1, .comma :: rest => do
    let (v, rest) ← value rest
    let (vs, rest) ← listTail fuel rest
    .ok (v :: vs, rest)
  | _, .rightParen :: rest => .ok ([], rest)
  | _, _ => .error .unterminatedList

/-- Constants in parentheses, separated by commas; at least one. -/
def list (ts : List Token) : Except QueryError (Json × List Token) := do
  let ts ← expect .leftParen ts
  let (v, ts) ← value ts
  let (vs, ts) ← listTail ts.length ts
  .ok (.array (v :: vs), ts)

def negated (field : String) (ts : List Token) :
    Except QueryError (Criteria × List Token) :=
  match afterKeyword? "in" ts with
  | some ts => (list ts).map fun (vs, ts) => (.compare .notIn field vs, ts)
  | none =>
    if (afterKeyword? "like" ts).isSome then .error .negatedPattern else .error .negatedOther

def relation (field : String) (ts : List Token) :
    Except QueryError (Criteria × List Token) :=
  match afterKeyword? "in" ts with
  | some ts => (list ts).map fun (vs, ts) => (.compare .isIn field vs, ts)
  | none =>
    match afterKeyword? "like" ts with
    | some (.text s :: ts) => .ok (.compare .like field (.string s), ts)
    | some _ => .error .expectedPattern
    | none =>
      match afterKeyword? "between" ts with
      | some ts => do
        let (lower, ts) ← value ts
        let ts ← expect .and ts
        let (upper, ts) ← value ts
        .ok (.between field lower upper, ts)
      | none =>
        match ts with
        | .op o :: ts => (value ts).map fun (v, ts) => (.compare o field v, ts)
        | ts => .error (.expectedOperator field ts.head?)

def comparison : List Token → Except QueryError (Criteria × List Token)
  | .word s :: ts =>
    if isKeyword s then .error (.expectedField (some (.word s)))
    else
      match afterKeyword? "not" ts with
      | some ts => negated s ts
      | none => relation s ts
  | ts => .error (.expectedField ts.head?)

/-- One or more of what `item` parses, with a separator between two. -/
def chain (item : List Token → Except QueryError (Criteria × List Token))
    (separator : Token) : Nat → List Token → Except QueryError (List Criteria × List Token)
  | 0, ts => (item ts).map fun (c, ts) => ([c], ts)
  | fuel + 1, ts => do
    let (c, ts) ← item ts
    match ts with
    | t :: rest =>
      if t = separator then
        let (cs, rest) ← chain item separator fuel rest
        .ok (c :: cs, rest)
      else .ok ([c], ts)
    | [] => .ok ([c], [])

/-- The node of several operands, or the only operand. -/
def join (op : Connective) : List Criteria → Criteria
  | [c] => c
  | cs => .logical op cs

def conjunction (unit : List Token → Except QueryError (Criteria × List Token))
    (ts : List Token) : Except QueryError (Criteria × List Token) :=
  (chain unit .and ts.length ts).map fun (cs, ts) => (join .and cs, ts)

def disjunction (unit : List Token → Except QueryError (Criteria × List Token))
    (ts : List Token) : Except QueryError (Criteria × List Token) :=
  (chain (conjunction unit) .or ts.length ts).map fun (cs, ts) => (join .or cs, ts)

/-- A comparison or a query in parentheses. The first argument is how many parentheses
may still be opened. -/
def unit : Nat → List Token → Except QueryError (Criteria × List Token)
  | room, .leftParen :: ts =>
    match room with
    | 0 => .error .tooManyParens
    | room + 1 => do
      let (c, ts) ← disjunction (unit room) ts
      let ts ← expect .rightParen ts
      .ok (c, ts)
  | _, ts => comparison ts

def ofTokens (ts : List Token) : Except QueryError Criteria := do
  if ts.isEmpty then throw .noTokens
  let (c, rest) ← disjunction (unit Criteria.maxHeight) ts
  match rest with
  | t :: _ => throw (.trailing t)
  | [] => if Criteria.maxHeight < c.height then throw (.tooDeep c.height) else return c

def parse (query : String) : Except QueryError Criteria := do ofTokens (← Token.scan query)

end Grove.Query
