import Grove.Json
import Grove.Decimal.Shortest
import Grove.Text

/-!
# Writing JSON

The compact text of a value: no blanks, members in their order, and numbers with the
fewest digits that read back.
-/

namespace Grove

structure FloatLayout where
  /-- The smallest exponent of ten written positionally. -/
  least : Int
  /-- The largest exponent of ten written positionally. -/
  greatest : Int
  /-- The sign before an exponent that is not negative. -/
  plus : String

/-- Numbers from 10^-5 to below 10^16 are positional and show a fraction; others have an
exponent with its sign. -/
def Json.floatLayout : FloatLayout := ⟨-5, 15, "+"⟩

/-- Digits with a point, when the last digit stands at `place`. -/
def Decimal.positional (digits : List Char) (place : Int) : String :=
  if 0 ≤ place then
    String.ofList (digits ++ List.replicate place.toNat '0') ++ ".0"
  else
    let after := (-place).toNat
    if after < digits.length then
      let before := digits.length - after
      String.ofList (digits.take before) ++ "." ++ String.ofList (digits.drop before)
    else "0." ++ String.ofList (List.replicate (after - digits.length) '0' ++ digits)

def Decimal.scientific (layout : FloatLayout) (digits : List Char) (exponent : Int) : String :=
  let mantissa := match digits with
    | [] => ""
    | [d] => String.ofList [d]
    | d :: ds => String.ofList (d :: '.' :: ds)
  let sign := if exponent < 0 then "-" else layout.plus
  mantissa ++ "e" ++ sign ++ toString exponent.natAbs

def Double.text (layout : FloatLayout) (x : Double) : String :=
  let d := x.shortest
  let digits := Nat.toDigits 10 d.digits
  let exponent := d.place + digits.length - 1
  let sign := if x.negative then "-" else ""
  if layout.least ≤ exponent && exponent ≤ layout.greatest then
    sign ++ Decimal.positional digits d.place
  else sign ++ Decimal.scientific layout digits exponent

def Number.text : Number → String
  | .int n => toString n
  | .float x => x.text Json.floatLayout

namespace Json

/-- A character of a string as JSON text writes it: quotes, backslashes and controls are
escaped and nothing else is. -/
def escapeChar (c : Char) : List Char :=
  if c = '\x22' then ['\\', '\x22']
  else if c = '\\' then ['\\', '\\']
  else if c = '\n' then ['\\', 'n']
  else if c = '\r' then ['\\', 'r']
  else if c = '\t' then ['\\', 't']
  else if c = '\x08' then ['\\', 'b']
  else if c = '\x0c' then ['\\', 'f']
  else if c.toNat < 0x20 then '\\' :: 'u' :: Text.hexFixed 4 c.toNat
  else [c]

def quote (s : String) : String :=
  "\"" ++ String.ofList (s.toList.flatMap escapeChar) ++ "\""

mutual

def compact : Json → String
  | .null => "null"
  | .bool b => if b then "true" else "false"
  | .number n => n.text
  | .string s => quote s
  | .array items => "[" ++ String.intercalate "," (compactItems items) ++ "]"
  | .object members => "\x7b" ++ String.intercalate "," (compactMembers members) ++ "\x7d"

def compactItems : List Json → List String
  | [] => []
  | item :: rest => compact item :: compactItems rest

def compactMembers : List (String × Json) → List String
  | [] => []
  | (name, value) :: rest => (quote name ++ ":" ++ compact value) :: compactMembers rest

end

end Json

def Record.compact (r : Record) : String := (Json.object r.fields).compact

end Grove
