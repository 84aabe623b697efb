import Grove.Attempt
import Grove.Postgres.Error
import Grove.Postgres.Row
import Grove.Sql.Parameter
import Grove.Sql.Statement

/-!
# Servers

All that is known of a database server is what it is sent and what it answers. A server is
a function from the one to the other that may change a state of its own, so it can be a
table, a script, or a server that is never reached.
-/

namespace Grove.Postgres

inductive Sent where
  /-- A connection to a database is asked for. -/
  | connect (database : String)
  /-- One statement with its parameters. -/
  | statement (sql : String) (parameters : List Sql.Parameter)
  /-- A script of statements without parameters. -/
  | script (sql : String)
deriving Inhabited

/-- What a server answers: rows with their columns, and how many rows the statement
concerned. -/
structure Reply where
  columns : List String := []
  rows : List (List Cell) := []
  affected : Nat := 0
deriving Inhabited

namespace Reply

def records (r : Reply) : List Record := r.rows.map (recordOfRow r.columns)

def firstRow (r : Reply) : Except DatabaseError (List Cell) :=
  match r.rows with
  | row :: _ => .ok row
  | [] => .error .rowNotFound

/-- The value of a cell of a row, where it must be of a given type. -/
def cell {α : Type} (read : Cell → Option α) (row : List Cell) (index : Nat) :
    Except DatabaseError α :=
  match row[index]? with
  | none => .error (.column index "there is no such column")
  | some c =>
    match read c with
    | some v => .ok v
    | none => .error (.column index "the value is of another type")

end Reply

structure Server (ω : Type) where
  answer : Sent → ω → Except DatabaseError Reply × ω

namespace Server

variable {ω : Type}

def send (s : Server ω) (what : Sent) : Attempt ω Reply :=
  Attempt.ofOutcome fun w =>
    match s.answer what w with
    | (.ok reply, w) => (.ok reply, w)
    | (.error e, w) => (.error e.failure, w)

def run (s : Server ω) (sql : String) (parameters : List Sql.Parameter) : Attempt ω Reply :=
  s.send (.statement sql parameters)

def unreachable (reason : String) : Server ω where
  answer _ w := (.error (.connection reason), w)

/-- A server that answers from a list and writes down what it is sent. Connections are
always made, and when the list is empty, so is every answer. -/
def scripted : Server (List (Except DatabaseError Reply) × List Sent) where
  answer
    | .connect database, (replies, log) => (.ok {}, replies, log ++ [.connect database])
    | sent, (reply :: replies, log) => (reply, replies, log ++ [sent])
    | sent, ([], log) => (.ok {}, [], log ++ [sent])

end Server

/-- What is expected of a reply, or the failure that it is otherwise. -/
def must {σ α : Type} (x : Except DatabaseError α) : Attempt σ α :=
  match x with
  | .ok v => return v
  | .error e => throw e.failure

end Grove.Postgres
