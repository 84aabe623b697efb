import Grove.Proofs.Sql.Truth
import Grove.Sql.Condition

/-!
# What conditions say

A condition is written into a statement as a Boolean expression over columns and
parameters. `Expression` is that expression as a tree: what it is in words (`words`), and
whether it is true of a row (`truth`), where a field that a record lacks is null.

`Condition.reading` is the expression of a condition, and `words_reading` says that it is
the one that the condition is written as. So what is shown about the truth of a reading is
shown about the words that reach the server.

A server decides some things for itself: how it orders text, what its patterns match and
when one JSON value contains another. An `Engine` is what a server decides.
-/

namespace Grove.Sql

structure Engine where
  compareText : String → String → Ordering
  /-- Whether the text has a match of the pattern. -/
  hasMatch : String → String → Bool
  /-- Whether the value that a path leads to, from a cell on, is there and contains a value. -/
  contains : Option Json → List String → Json → Bool

inductive Expression where
  | constant (b : Bool)
  | isNull (column : String)
  | isNotNull (column : String)
  | compared (column : String) (op : Operator) (value : Json)
  /-- The column is distinct from the value, which null is from everything else. -/
  | distinct (column : String) (value : Json)
  | among (column : String) (values : List Json)
  | notAmong (column : String) (values : List Json)
  /-- The column as text matches the pattern. -/
  | matching (column : String) (pattern : Json)
  /-- The value at the end of a path contains the value. -/
  | containing (path : String) (value : Json)
  | not (e : Expression)
  | and (parts : List Expression)
  | or (parts : List Expression)

namespace Expression

mutual

def words : Expression → Statement
  | .constant b => [.word (if b then "TRUE" else "FALSE")]
  | .isNull column => Condition.isNull column
  | .isNotNull column => Condition.isNotNull column
  | .compared column op value => Condition.comparison column op.symbol value
  | .distinct column value => Condition.comparison column "IS DISTINCT FROM" value
  | .among column values => Condition.membership column .isIn values
  | .notAmong column values => Condition.membership column .notIn values
  | .matching column pattern =>
    [.word "CAST(", .name column, .word " AS TEXT) ~ ", .parameter pattern none]
  | .containing path value => Condition.containment path value
  | .not e => .word "NOT " :: words e
  | .and parts => .word "(" :: Statement.separate " AND " (wordsOfAll parts) ++ [.word ")"]
  | .or parts => .word "(" :: Statement.separate " OR " (wordsOfAll parts) ++ [.word ")"]

def wordsOfAll : List Expression → List Statement
  | [] => []
  | e :: es => words e :: wordsOfAll es

end

end Expression

/-! ## Rows -/

/-- What the column holds in the row of a record, unless that is null. -/
def cell (row : Record) (column : String) : Option Json :=
  (row.get? column).filter fun value => !value.isNull

/-- The value of a number, in units of 2^-1074. -/
def numberValue : Number → Int
  | .int n => n * twoTo 1074
  | .float x => x.scaled

def castText? : Json → Option String
  | .string s => some s
  | .number (.int n) => some (toString n)
  | .bool b => some (if b then "true" else "false")
  | _ => none

def Operator.admits : Operator → Ordering → Truth
  | .eq, o => some (o == .eq)
  | .ne, o => some (o != .eq)
  | .gt, o => some (o == .gt)
  | .gte, o => some (o != .lt)
  | .lt, o => some (o == .lt)
  | .lte, o => some (o != .gt)
  | _, _ => none

namespace Engine

variable (e : Engine)

/-- The order of two values of one type. Null is ordered with nothing. -/
def order? : Json → Json → Option Ordering
  | .number a, .number b => some (compare (numberValue a) (numberValue b))
  | .string a, .string b => some (e.compareText a b)
  | .bool a, .bool b => some (compare a b)
  | _, _ => none

def compared (held : Option Json) (op : Operator) (value : Json) : Truth :=
  (held.bind (e.order? · value)).bind op.admits

def member (held : Option Json) (values : List Json) : Truth :=
  Truth.any (values.map fun value => e.compared held .eq value)

end Engine

namespace Expression

mutual

def truth (e : Engine) (row : Record) : Expression → Truth
  | .constant b => some b
  | .isNull column => some (cell row column).isNone
  | .isNotNull column => some (cell row column).isSome
  | .compared column op value => e.compared (cell row column) op value
  | .distinct column value =>
    match cell row column with
    | none => some !value.isNull
    | some held => some (e.order? held value != some .eq)
  | .among column values => e.member (cell row column) values
  | .notAmong column values => (e.member (cell row column) values).negation
  | .matching column pattern =>
    match (cell row column).bind castText?, pattern with
    | some text, .string pattern => some (e.hasMatch pattern text)
    | _, _ => none
  | .containing path value =>
    match Text.split '.' path with
    | root :: names => some (e.contains (cell row root) names value)
    | [] => some (e.contains (cell row path) [] value)
  | .not part => (truth e row part).negation
  | .and parts => Truth.all (truthOfAll e row parts)
  | .or parts => Truth.any (truthOfAll e row parts)

def truthOfAll (e : Engine) (row : Record) : List Expression → List Truth
  | [] => []
  | part :: parts => truth e row part :: truthOfAll e row parts

end

end Expression

/-! ## Readings -/

namespace Condition

/-- The expression of a membership. Nulls of the list are asked for on their own. -/
def memberReading (column : String) (items : List Json) : Expression :=
  let values := items.filter fun v => !v.isNull
  match values.isEmpty, items.any Json.isNull with
  | true, false => .constant false
  | true, true => .isNull column
  | false, false => .among column values
  | false, true => .or [.among column values, .isNull column]

/-- The expression of a membership that is denied. -/
def strangerReading (column : String) (items : List Json) : Expression :=
  let values := items.filter fun v => !v.isNull
  match values.isEmpty, items.any Json.isNull with
  | true, false => .constant true
  | true, true => .isNotNull column
  | false, false => .or [.isNull column, .notAmong column values]
  | false, true => .and [.isNotNull column, .notAmong column values]

def testReading (column : String) (op : Operator) (value : Json) : Expression :=
  match op, value with
  | .contains, _ => .containing column value
  | .lacks, _ => .not (.containing column value)
  | .eq, .null => .isNull column
  | .ne, .null => .isNotNull column
  | .isIn, .array items => memberReading column items
  | .notIn, .array items => strangerReading column items
  | .ne, _ => .distinct column value
  | .matchesPattern, _ => .matching column value
  | _, _ => .compared column op value

mutual

def reading : Condition → Expression
  | .all => .constant true
  | .test column op value => testReading column op value
  | .and parts => .and (readings parts)
  | .or parts => .or (readings parts)

def readings : List Condition → List Expression
  | [] => []
  | c :: cs => reading c :: readings cs

end

theorem words_memberReading (column : String) (items : List Json) :
    (memberReading column items).words = listTest column .isIn items := by
  simp only [memberReading, listTest]
  cases (items.filter fun v => !v.isNull).isEmpty <;> cases items.any Json.isNull <;>
    simp [Expression.words, Expression.wordsOfAll, Statement.separate]

theorem words_strangerReading (column : String) (items : List Json) :
    (strangerReading column items).words = listTest column .notIn items := by
  simp only [strangerReading, listTest]
  cases (items.filter fun v => !v.isNull).isEmpty <;> cases items.any Json.isNull <;>
    simp [Expression.words, Expression.wordsOfAll, Statement.separate]

theorem words_testReading (column : String) (op : Operator) (value : Json) :
    (testReading column op value).words = testStatement column op value := by
  cases op with
  | isIn =>
      cases value with
      | array items => exact words_memberReading column items
      | null | bool | number | string | object => rfl
  | notIn =>
      cases value with
      | array items => exact words_strangerReading column items
      | null | bool | number | string | object => rfl
  | eq | ne => cases value <;> rfl
  | gt | gte | lt | lte | matchesPattern | contains | lacks => cases value <;> rfl

mutual

/-- A condition is written as its reading is. -/
theorem words_reading (c : Condition) : c.reading.words = c.expression := by
  match c with
  | .all => rfl
  | .test column op value =>
      rw [reading, expression]
      exact words_testReading column op value
  | .and parts | .or parts =>
      rw [reading, expression, Expression.words, wordsOfAll_readings]

theorem wordsOfAll_readings (cs : List Condition) :
    Expression.wordsOfAll (readings cs) = expressions cs := by
  match cs with
  | [] => rfl
  | c :: cs => rw [readings, expressions, Expression.wordsOfAll, words_reading, wordsOfAll_readings]

end

end Condition

end Grove.Sql
