import Mathlib.Data.List.Basic
import Grove.Proofs.Sql.Lexing
import Grove.Proofs.Sql.Truth

/-!
# Conditions as a server understands them

From its lexemes a server makes an expression by the ranks of its operators, and for each row it
comes to a value. This module has PostgreSQL's rules for both, as far as a condition of this
program could meet them.

Parentheses come first: what stands between two of them is understood on its own and is one item
of what stands around them (`scan`). In a row of items without parentheses the loosest operator
divides first. `OR` is the loosest one, then come `AND`, `NOT`, the tests that begin with `IS`, the
comparisons, `IN`, and all other operators, which take what stands before them as a whole. Where
there are two comparisons or two tests of one rank side by side, there is no expression.

A value is null or one of a type that stays open, as do the operators other than the ones that
truth is made of: what they come to is the server's decision (`Server`). None of them looks at
null.
-/

namespace Grove.Sql

/-! ## Expressions -/

inductive Term where
  | column (name : String)
  /-- The value of the parameter with the number; the first is 1. -/
  | parameter (number : Nat)
  | literal (text : String)
  | constant (b : Bool)
  | cast (e : Term) (type : String)
  /-- The value of the first, or of the second if that is null. -/
  | coalesce (e other : Term)
  | operation (symbol : String) (left right : Term)
  | isNull (e : Term)
  | isNotNull (e : Term)
  | distinct (left right : Term)
  | among (e : Term) (values : List Term)
  | notAmong (e : Term) (values : List Term)
  | not (e : Term)
  | and (parts : List Term)
  | or (parts : List Term)

namespace Term

/-- A lexeme, or what stands in parentheses: expressions with commas in between, each with the type
that may be named behind it. -/
inductive Item where
  | lexeme (t : Lexeme)
  | group (contents : List (Term × Option String))

namespace Item

def word? : Item → Option String
  | .lexeme (.word w) => some w
  | _ => none

def symbol? : Item → Option String
  | .lexeme (.operator symbol) => some symbol
  | _ => none

def isWord (w : String) (item : Item) : Bool := item.word? == some w

def isComma : Item → Bool
  | .lexeme (.mark ',') => true
  | _ => false

end Item

/-- The items before and behind the first one of a kind, with what it is. -/
def cut {β : Type} (kind : Item → Option β) : List Item → Option (List Item × β × List Item)
  | [] => none
  | item :: items =>
    match kind item with
    | some b => some ([], b, items)
    | none => (cut kind items).map fun (before, b, behind) => (item :: before, b, behind)

/-- What stands between operators. -/
def operand : List Item → Option Term
  | [.lexeme (.identifier name)] => some (.column name)
  | [.lexeme (.parameter digits)] => (Text.readDigits? digits.toList).map .parameter
  | [.lexeme (.literal text)] => some (.literal text)
  | [.lexeme (.word "TRUE")] => some (.constant true)
  | [.lexeme (.word "FALSE")] => some (.constant false)
  | [.lexeme (.word "CAST"), .group [(e, some type)]] => some (.cast e type)
  | [.lexeme (.word "COALESCE"), .group [(e, none), (other, none)]] => some (.coalesce e other)
  | [.group [(e, none)]] => some e
  | _ => none

/-- Operators of the tightest rank: each takes all that is before it as its left operand. `before`
makes an expression of the operand that comes next, of which the items so far are given. -/
def chain (before : Term → Term) (piece : List Item) : List Item → Option Term
  | [] => (operand piece).map before
  | item :: items =>
    match item.symbol? with
    | none => chain before (piece ++ [item]) items
    | some symbol =>
      if Lexeme.comparisons.contains symbol then none
      else (operand piece).bind fun e => chain (.operation symbol (before e)) [] items

def listed (contents : List (Term × Option String)) : Option (List Term) :=
  contents.mapM fun c => if c.2.isNone then some c.1 else none

def membership (items : List Item) : Option Term :=
  match cut (fun item => item.word?.filter ["IN", "NOT"].contains) items with
  | none => chain id [] items
  | some (left, "IN", [.group contents]) => do
    return .among (← chain id [] left) (← listed contents)
  | some (left, "NOT", [.lexeme (.word "IN"), .group contents]) => do
    return .notAmong (← chain id [] left) (← listed contents)
  | some _ => none

def comparison (items : List Item) : Option Term :=
  match cut (fun item => item.symbol?.filter Lexeme.comparisons.contains) items with
  | none => membership items
  | some (left, symbol, right) => do
    return .operation symbol (← membership left) (← membership right)

def isTest (items : List Item) : Option Term :=
  match cut (fun item => item.word?.filter (· = "IS")) items with
  | none => comparison items
  | some (left, _, [.lexeme (.word "NULL")]) => (comparison left).map .isNull
  | some (left, _, [.lexeme (.word "NOT"), .lexeme (.word "NULL")]) =>
    (comparison left).map .isNotNull
  | some (left, _, .lexeme (.word "DISTINCT") :: .lexeme (.word "FROM") :: right) => do
    return .distinct (← comparison left) (← comparison right)
  | some _ => none

def negation : List Item → Option Term
  | .lexeme (.word "NOT") :: items => (negation items).map .not
  | items => isTest items

/-- The only part, or what is made of several. -/
def joined (make : List Term → Term) : List Term → Term
  | [e] => e
  | parts => make parts

def conjunction (items : List Item) : Option Term :=
  ((items.splitOnP (Item.isWord "AND")).mapM negation).map (joined .and)

def disjunction (items : List Item) : Option Term :=
  ((items.splitOnP (Item.isWord "OR")).mapM conjunction).map (joined .or)

/-- An expression, and its type where it is one to be cast. -/
def content (items : List Item) : Option (Term × Option String) :=
  match cut (fun item => item.word?.filter (· = "AS")) items with
  | none => (disjunction items).map (·, none)
  | some (left, _, [.lexeme (.word type)]) => (disjunction left).map (·, some type)
  | some _ => none

def contents (items : List Item) : Option (List (Term × Option String)) :=
  (items.splitOnP Item.isComma).mapM content

/-- The items of a text; `items` are the ones since the last open parenthesis and `outer` the ones
before the open parentheses, from the inside out. -/
def scan : List (List Item) → List Item → List Lexeme → Option (List Item)
  | outer, items, [] => if outer.isEmpty then some items else none
  | outer, items, t :: ts =>
    if t = .mark '(' then scan (items :: outer) [] ts
    else if t = .mark ')' then
      match outer with
      | [] => none
      | before :: outer => (contents items).bind fun cs => scan outer (before ++ [.group cs]) ts
    else scan outer (items ++ [.lexeme t]) ts

def ofLexemes (ts : List Lexeme) : Option Term := (scan [] [] ts).bind disjunction

/-- The condition of a statement by the text behind its table, which may have none. -/
def ofClause : List Lexeme → Option Term
  | [] => some (.constant true)
  | .word "WHERE" :: ts => ofLexemes ts
  | _ => none

end Term

/-! ## Values -/

/-- What a server decides about values. -/
structure Server (α : Type) where
  /-- What a parameter arrives as, by its value and its column. -/
  bind : Json → Option String → Option α
  literal : String → α
  cast : String → α → Option α
  operate : String → α → α → Option α
  boolean : Bool → α
  isTrue : α → Bool
  isTrue_boolean : ∀ b, isTrue (boolean b) = b

namespace Server

variable {α : Type} (server : Server α)

/-- The truth of a value; null is unknown. -/
def truth (value : Option α) : Truth := value.map server.isTrue

def ofTruth (t : Truth) : Option α := t.map server.boolean

@[simp] theorem truth_ofTruth (t : Truth) : server.truth (server.ofTruth t) = t := by
  cases t with
  | none => rfl
  | some b => exact congrArg some (server.isTrue_boolean b)

/-- Of a truth that is unknown, false is left if it is taken in its place. -/
theorem truth_or_false (value : Option α) :
    server.truth (value.or (some (server.boolean false))) =
      some ((server.truth value).getD false) := by
  cases value with
  | none => exact congrArg some (server.isTrue_boolean false)
  | some a => rfl

/-- The operator on two values, neither of which may be null. -/
def operation (symbol : String) (left right : Option α) : Option α :=
  left.bind fun a => right.bind fun b => server.operate symbol a b

def compare (symbol : String) (left right : Option α) : Truth :=
  server.truth (server.operation symbol left right)

/-- Whether two values are distinct, where null is not distinct from itself. -/
def differs : Option α → Option α → Bool
  | none, none => false
  | some a, some b => server.compare "=" (some a) (some b) != some true
  | _, _ => true

def isAmong (value : Option α) (values : List (Option α)) : Truth :=
  Truth.any (values.map fun v => server.compare "=" value v)

end Server

namespace Term

variable {α : Type} (server : Server α) (row : String → Option α)
  (given : List (Json × Option String))

mutual

/-- The value of an expression in a row, where none is null. -/
def value : Term → Option α
  | .column name => row name
  | .parameter 0 => none
  | .parameter (k + 1) => given[k]?.bind fun p => server.bind p.1 p.2
  | .literal text => some (server.literal text)
  | .constant b => some (server.boolean b)
  | .cast e type => (value e).bind (server.cast type)
  | .coalesce e other => (value e).or (value other)
  | .operation symbol left right => server.operation symbol (value left) (value right)
  | .isNull e => some (server.boolean (value e).isNone)
  | .isNotNull e => some (server.boolean (value e).isSome)
  | .distinct left right => some (server.boolean (server.differs (value left) (value right)))
  | .among e es => server.ofTruth (server.isAmong (value e) (values es))
  | .notAmong e es => server.ofTruth (server.isAmong (value e) (values es)).negation
  | .not e => server.ofTruth (server.truth (value e)).negation
  | .and parts => server.ofTruth (Truth.all ((values parts).map server.truth))
  | .or parts => server.ofTruth (Truth.any ((values parts).map server.truth))

def values : List Term → List (Option α)
  | [] => []
  | e :: es => value e :: values es

end

def truth (e : Term) : Truth := server.truth (e.value server row given)

end Term

end Grove.Sql
