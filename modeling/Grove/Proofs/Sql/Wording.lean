import Grove.Proofs.Sql.Phrases

/-!
# Tests as lexemes

What each test of a condition is read as, with the number of the parameter that comes next. The
words between names and parameters are fixed, so these are equations in the names and the numbers
only, and a reading of statements is followed through a test with them.
-/

namespace Grove.Sql

namespace Statement

variable {number : Nat}

@[simp] theorem lexemes_nil : lexemes number [] = [] := rfl

theorem lexemes_word {w : String} {us : List Lexeme} (h : Lexeme.ofText w = some us)
    (s : Statement) : lexemes number (.word w :: s) = us ++ lexemes number s := by
  rw [lexemes, Fragment.lexemes, h]
  rfl

@[simp] theorem lexemes_name (n : String) (s : Statement) :
    lexemes number (.name n :: s) = .identifier n :: lexemes number s := rfl

@[simp] theorem lexemes_path (segments : List String) (s : Statement) :
    lexemes number (.path segments :: s) =
      .literal ("\x7b" ++ String.intercalate "," segments ++ "\x7d") :: lexemes number s := rfl

@[simp] theorem lexemes_parameter (value : Json) (column : Option String) (s : Statement) :
    lexemes number (.parameter value column :: s) =
      .parameter (toString number) :: lexemes (number + 1) s := rfl

@[simp] theorem parameters_nil : parameters [] = [] := rfl

@[simp] theorem parameters_word (w : String) (s : Statement) :
    parameters (.word w :: s) = parameters s := rfl

@[simp] theorem parameters_name (n : String) (s : Statement) :
    parameters (.name n :: s) = parameters s := rfl

@[simp] theorem parameters_path (segments : List String) (s : Statement) :
    parameters (.path segments :: s) = parameters s := rfl

@[simp] theorem parameters_parameter (value : Json) (column : Option String) (s : Statement) :
    parameters (.parameter value column :: s) = (value, column) :: parameters s := rfl

@[simp] theorem parameters_append (s t : Statement) :
    (s ++ t).parameters = s.parameters ++ t.parameters := by
  induction s with
  | nil => rfl
  | cons f s ih => cases f <;> simp [ih]

/-- The numbers of a statement go on where those of the statement before it end. -/
theorem lexemes_append (s t : Statement) :
    lexemes number (s ++ t) = lexemes number s ++ lexemes (number + s.parameters.length) t := by
  induction s generalizing number with
  | nil => rfl
  | cons f s ih =>
      rw [List.cons_append, lexemes, lexemes, ih, List.append_assoc]
      cases f with
      | word | name | path => rfl
      | parameter value column =>
          rw [parameters_parameter, List.length_cons, Nat.add_comm (parameters s).length 1,
            ← Nat.add_assoc]
          rfl

theorem parameters_separate (separator : String) (parts : List Statement) :
    (separate separator parts).parameters = parts.flatMap parameters := by
  induction parts with
  | nil => rfl
  | cons s parts ih =>
      cases parts with
      | nil => simp [separate]
      | cons t parts =>
          have hseparate : separate separator (s :: t :: parts) =
              s ++ .word separator :: separate separator (t :: parts) := rfl
          rw [hseparate, parameters_append, parameters_word, List.flatMap_cons, ← ih]

/-- Where each part has one parameter, these are the parameters of the whole. -/
theorem parameters_separate_map {α : Type} {write : α → Statement}
    {given : α → Json × Option String} (h : ∀ a, (write a).parameters = [given a])
    (separator : String) (items : List α) :
    (separate separator (items.map write)).parameters = items.map given := by
  rw [parameters_separate, List.flatMap_map, List.map_eq_flatMap]
  simp only [h]

theorem parameters_separate_names {α : Type} {write : α → Statement}
    (h : ∀ a, (write a).parameters = []) (separator : String) (items : List α) :
    (separate separator (items.map write)).parameters = [] := by
  rw [parameters_separate, List.flatMap_map]
  simp [h]

/-- So many parameters, with commas between them. -/
def numberList (number count : Nat) : List Lexeme :=
  ((List.range' number count).map fun k => Lexeme.parameter (toString k)).intersperse (.mark ',')

theorem lexemes_separate_parameters (given : List (Json × Option String)) :
    lexemes number (separate ", " (given.map fun p => [.parameter p.1 p.2])) =
      numberList number given.length := by
  have hcomma : Lexeme.ofText ", " = some [.mark ','] := by decide
  induction given generalizing number with
  | nil => rfl
  | cons p given ih =>
      cases given with
      | nil => rfl
      | cons q given =>
          have hseparate : separate ", " ((p :: q :: given).map fun p => [.parameter p.1 p.2]) =
              .parameter p.1 p.2 :: .word ", " ::
                separate ", " ((q :: given).map fun p => [.parameter p.1 p.2]) := rfl
          rw [hseparate, lexemes_parameter, lexemes_word hcomma, ih]
          rfl

end Statement

namespace Condition

open Statement (lexemes numberList parameters)

variable {number : Nat}

theorem lexemes_isNull (column : String) :
    lexemes number (isNull column) = [.identifier column, .word "IS", .word "NULL"] := by
  have hword : Lexeme.ofText " IS NULL" = some [.word "IS", .word "NULL"] := by decide
  rw [isNull, Statement.lexemes_name, Statement.lexemes_word hword]
  rfl

theorem lexemes_isNotNull (column : String) :
    lexemes number (isNotNull column) =
      [.identifier column, .word "IS", .word "NOT", .word "NULL"] := by
  have hword : Lexeme.ofText " IS NOT NULL" = some [.word "IS", .word "NOT", .word "NULL"] := by
    decide
  rw [isNotNull, Statement.lexemes_name, Statement.lexemes_word hword]
  rfl

theorem lexemes_comparison {symbol : String} {us : List Lexeme}
    (h : Lexeme.ofText (" " ++ symbol ++ " ") = some us) (column : String) (value : Json) :
    lexemes number (comparison column symbol value) =
      .identifier column :: us ++ [.parameter (toString number)] := by
  rw [comparison, Statement.lexemes_name, Statement.lexemes_word h]
  rfl

theorem lexemes_matching (column : String) (pattern : Json) :
    lexemes number [.word "CAST(", .name column, .word " AS TEXT) ~ ", .parameter pattern none] =
      [.word "CAST", .mark '(', .identifier column, .word "AS", .word "TEXT", .mark ')',
        .operator "~", .parameter (toString number)] := by
  have hcast : Lexeme.ofText "CAST(" = some [.word "CAST", .mark '('] := by decide
  have htext : Lexeme.ofText " AS TEXT) ~ " =
      some [.word "AS", .word "TEXT", .mark ')', .operator "~"] := by decide
  rw [Statement.lexemes_word hcast, Statement.lexemes_name, Statement.lexemes_word htext]
  rfl

theorem lexemes_membership {op : Operator} {us : List Lexeme}
    (h : Lexeme.ofText (" " ++ op.symbol ++ " (") = some us) (column : String)
    (values : List Json) :
    lexemes number (membership column op values) =
      .identifier column :: us ++ numberList number values.length ++ [.mark ')'] := by
  have hclose : Lexeme.ofText ")" = some [.mark ')'] := by decide
  have hlist := @Statement.lexemes_separate_parameters number
    (values.map fun v => (v, some column))
  rw [List.map_map, List.length_map] at hlist
  rw [membership, Statement.lexemes_append, Statement.lexemes_append, Statement.lexemes_name,
    Statement.lexemes_word h, Statement.lexemes_word hclose]
  simp only [Statement.lexemes_nil, List.append_nil]
  exact congrArg (fun ts => Lexeme.identifier column :: us ++ ts ++ [.mark ')']) hlist

theorem parameters_membership (column : String) (op : Operator) (values : List Json) :
    (membership column op values).parameters = values.map fun v => (v, some column) := by
  have hlist := Statement.parameters_separate_map (fun _ => rfl : ∀ v : Json,
    Statement.parameters [.parameter v (some column)] = [(v, some column)]) ", " values
  simp [membership, hlist]

theorem lexemes_containment {column root : String} {path : List String}
    (h : Text.split '.' column = root :: path) (value : Json) :
    lexemes number (containment column value) =
      [.word "COALESCE", .mark '(', .identifier root, .operator "#>",
        .literal ("\x7b" ++ String.intercalate "," path ++ "\x7d"), .operator "@>", .word "CAST",
        .mark '(', .parameter (toString number), .word "AS", .word "JSONB", .mark ')', .mark ',',
        .word "FALSE", .mark ')'] := by
  have hopen : Lexeme.ofText "COALESCE(" = some [.word "COALESCE", .mark '('] := by decide
  have hpath : Lexeme.ofText " #> " = some [.operator "#>"] := by decide
  have hcast : Lexeme.ofText " @> CAST(" = some [.operator "@>", .word "CAST", .mark '('] := by
    decide
  have hclose : Lexeme.ofText " AS JSONB), FALSE)" = some [.word "AS", .word "JSONB", .mark ')',
      .mark ',', .word "FALSE", .mark ')'] := by decide
  rw [containment_eq h, Statement.lexemes_word hopen, Statement.lexemes_name,
    Statement.lexemes_word hpath, Statement.lexemes_path, Statement.lexemes_word hcast,
    Statement.lexemes_parameter, Statement.lexemes_word hclose]
  rfl

end Condition

end Grove.Sql
