import Grove.Criteria
import Grove.Decimal.Reading
import Grove.Text.Quoted

/-!
# Tokens of the query language

A query is read in two steps, and tokens are what lies between them. `Token.scan` takes
the lexemes off the text one by one: each of them is a non-empty beginning of what is
left, so the length of the text bounds how many there are.
-/

namespace Grove

inductive Token where
  | word (s : String)
  | text (s : String)
  | number (n : Number)
  | op (o : Comparison)
  | leftParen
  | rightParen
  | comma
  | and
  | or
deriving DecidableEq

/-- Why a query cannot be read. What was found is `none` at the end of the query. -/
inductive QueryError where
  | unexpectedChar (c : Char) (position : Nat)
  | unterminatedText
  | invalidNumber (digits : String)
  | noTokens
  | expectedToken (wanted : Token) (found : Option Token)
  | expectedField (found : Option Token)
  | expectedOperator (field : String) (found : Option Token)
  | expectedValue (found : Option Token)
  | expectedPattern
  | negatedPattern
  | negatedOther
  | unterminatedList
  | keywordAsValue (keyword : String)
  | trailing (found : Token)
  | tooManyParens
  | tooDeep (levels : Nat)
deriving DecidableEq

namespace Token

/-- The word with the name of its kind, the way messages show tokens. -/
def describe : Token → String
  | .word s => "Ident(" ++ Text.quoted s ++ ")"
  | .text s => "Str(" ++ Text.quoted s ++ ")"
  | .number n => "Num(Number(" ++ n.text ++ "))"
  | .op o =>
    let name := match o with
      | .eq => "Eq"
      | .ne => "Ne"
      | .gt => "Gt"
      | .gte => "Gte"
      | .lt => "Lt"
      | .lte => "Lte"
      | .isIn => "In"
      | .notIn => "NotIn"
      | .like => "Like"
    "Op(" ++ name ++ ")"
  | .leftParen => "LParen"
  | .rightParen => "RParen"
  | .comma => "Comma"
  | .and => "And"
  | .or => "Or"

/-- The text up to the closing quote, and what follows it. A backslash takes the next
character as it is. -/
def quoted (quote : Char) : List Char → Except QueryError (List Char × List Char)
  | [] => .error .unterminatedText
  | c :: cs =>
    if c = '\\' then
      match cs with
      | [] => .error .unterminatedText
      | d :: ds => (quoted quote ds).map fun (body, rest) => (d :: body, rest)
    else if c = quote then .ok ([], cs)
    else (quoted quote cs).map fun (body, rest) => (c :: body, rest)

/-- A number: an integer if it is one of sixty-four bits, and otherwise the nearest
finite binary64 number. -/
def readNumber (digits : String) : Except QueryError Number :=
  match Text.readInt64? digits with
  | some n => .ok (.int n)
  | none =>
    match Binary64.read? digits with
    | some (.finite x) => .ok (.float x)
    | _ => .error (.invalidNumber digits)

def isNumberChar (c : Char) : Bool := c.isDigit || c = '.'

def isWordStart (c : Char) : Bool := c.isAlpha || c = '_'

def isWordChar (c : Char) : Bool := c.isAlphanum || c = '_' || c = '.'

/-- A word is a connective if it reads `and` or `or` in any case. -/
def ofWord (s : String) : Token :=
  match Text.lower s with
  | "and" => .and
  | "or" => .or
  | _ => .word s

/-- The operator at the start of the text and what follows it. -/
def operator? : List Char → Option (Comparison × List Char)
  | '=' :: '=' :: rest => some (.eq, rest)
  | '=' :: rest => some (.eq, rest)
  | '!' :: '=' :: rest => some (.ne, rest)
  | '<' :: '>' :: rest => some (.ne, rest)
  | '<' :: '=' :: rest => some (.lte, rest)
  | '<' :: rest => some (.lt, rest)
  | '>' :: '=' :: rest => some (.gte, rest)
  | '>' :: rest => some (.gt, rest)
  | _ => none

/-- The first lexeme of `c :: cs` and what follows it; a blank is no token. The character
stands at the given position of the query. -/
def lexeme (position : Nat) (c : Char) (cs : List Char) :
    Except QueryError (Option Token × List Char) :=
  if Text.isBlank c then .ok (none, cs)
  else if c = '(' then .ok (some .leftParen, cs)
  else if c = ')' then .ok (some .rightParen, cs)
  else if c = ',' then .ok (some .comma, cs)
  else if c = '&' || c = '|' then
    match cs with
    | d :: rest =>
      if d = c then .ok (some (if c = '&' then .and else .or), rest)
      else .error (.unexpectedChar c position)
    | [] => .error (.unexpectedChar c position)
  else if c = '=' || c = '!' || c = '<' || c = '>' then
    match operator? (c :: cs) with
    | some (o, rest) => .ok (some (.op o), rest)
    | none => .error (.unexpectedChar c position)
  else if c = '\x22' || c = '\x27' then
    (quoted c cs).map fun (body, rest) => (some (.text (String.ofList body)), rest)
  else if c.isDigit || (c = '-' && cs.head?.any Char.isDigit) then
    (readNumber (String.ofList (c :: cs.takeWhile isNumberChar))).map fun n =>
      (some (.number n), cs.dropWhile isNumberChar)
  else if isWordStart c then
    .ok (some (ofWord (String.ofList (c :: cs.takeWhile isWordChar))), cs.dropWhile isWordChar)
  else .error (.unexpectedChar c position)

/-- The tokens of the text; `total` is the length of the whole query and the first
argument bounds the lexemes. -/
def scanFrom (total : Nat) : Nat → List Char → Except QueryError (List Token)
  | fuel + 1, c :: cs => do
    let (token, rest) ← lexeme (total - (cs.length + 1)) c cs
    let tokens ← scanFrom total fuel rest
    match token with
    | some t => .ok (t :: tokens)
    | none => .ok tokens
  | _, _ => .ok []

def scan (query : String) : Except QueryError (List Token) :=
  let cs := query.toList
  scanFrom cs.length cs.length cs

end Token

def QueryError.found (t : Option Token) : String := (t.map Token.describe).getD "end of input"

def QueryError.message : QueryError → String
  | .unexpectedChar c position =>
    "unexpected '" ++ String.ofList [c] ++ "' at " ++ toString position
  | .unterminatedText => "unterminated string literal"
  | .invalidNumber digits => "invalid number '" ++ digits ++ "'"
  | .noTokens => "empty query"
  | .expectedToken wanted t => "expected " ++ wanted.describe ++ ", found " ++ found t
  | .expectedField t => "expected field name, found " ++ found t
  | .expectedOperator field t =>
    "expected operator after '" ++ field ++ "'" ++
      (match t with
        | some t => ", found " ++ t.describe
        | none => "")
  | .expectedValue t => "expected value, found " ++ found t
  | .expectedPattern => "like requires a quoted pattern"
  | .negatedPattern => "NOT LIKE is not supported"
  | .negatedOther => "NOT must be followed by IN"
  | .unterminatedList => "unterminated list"
  | .keywordAsValue keyword => "unexpected keyword '" ++ keyword ++ "'"
  | .trailing t => "unexpected trailing " ++ t.describe
  | .tooManyParens => "parentheses nested deeper than " ++ toString Criteria.maxHeight
  | .tooDeep levels => (CriteriaError.tooDeep levels).message

end Grove
