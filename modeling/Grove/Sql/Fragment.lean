import Grove.Json

/-!
# Statements in fragments

A statement is written as a list of fragments: its own words, the names that callers
choose, and the values that go along as parameters. Only the last step puts the fragments
into one text. There each name is quoted, and each parameter gets the number of its place
among the parameters, so the numbers ascend along the text and no value is part of it.
-/

namespace Grove.Sql

inductive Fragment where
  /-- Words of the statement itself. -/
  | word (text : String)
  /-- A name that a caller chose. -/
  | name (name : String)
  /-- The inner names of a path into a JSON column. -/
  | path (segments : List String)
  /-- A value, and the column that it is compared with or written to. -/
  | parameter (value : Json) (column : Option String)
deriving Inhabited

abbrev Statement := List Fragment

/-- A name between quotes, with every quote inside it doubled. -/
def quoted (name : String) : String :=
  let body := name.toList.flatMap fun c => if c = '\x22' then ['\x22', '\x22'] else [c]
  String.ofList ('\x22' :: body ++ ['\x22'])

/-- The text of a fragment; `number` is the place of the next parameter. -/
def Fragment.text (number : Nat) : Fragment → String
  | .word s => s
  | .name n => quoted n
  | .path segments => "'\x7b" ++ String.intercalate "," segments ++ "\x7d'"
  | .parameter .. => "$" ++ toString number

def Fragment.isParameter : Fragment → Bool
  | .parameter .. => true
  | _ => false

namespace Statement

/-- The texts of the fragments, when the next parameter has the given number. -/
def texts (number : Nat) : Statement → List String
  | [] => []
  | f :: fs => f.text number :: texts (if f.isParameter then number + 1 else number) fs

def text (s : Statement) : String := String.join (texts 1 s)

/-- The parameters with their columns, in the order of their numbers. -/
def parameters : Statement → List (Json × Option String)
  | [] => []
  | .parameter value column :: fs => (value, column) :: parameters fs
  | _ :: fs => parameters fs

def separate (separator : String) : List Statement → Statement
  | [] => []
  | [s] => s
  | s :: rest => s ++ .word separator :: separate separator rest

end Statement

end Grove.Sql
