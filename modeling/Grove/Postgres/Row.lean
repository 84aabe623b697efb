import Grove.Decimal.Reading
import Grove.Instant
import Grove.Json.Printer
import Grove.Json.Reader
import Grove.Uuid

/-!
# Rows

A row that the server returns has a cell for each of its columns, and a cell has a value
of the column's type. A record is made of a row by reading the cells of the types that
resources are stored with. Cells of other types are read as null, as are values that no
JSON value stands for.
-/

namespace Grove.Postgres

inductive TextType where
  | text | name | bpchar | varchar
deriving DecidableEq, Inhabited

inductive Cell where
  | null
  | bool (b : Bool)
  | int2 (n : Int)
  | int4 (n : Int)
  | int8 (n : Int)
  | float4 (x : Binary64)
  | float8 (x : Binary64)
  | numeric (digits : String)
  /-- Days from the start of the year 2000. -/
  | date (days : Int)
  /-- Microseconds from the start of the year 2000 on some local clock. -/
  | timestamp (microseconds : Int)
  /-- Microseconds from the start of the year 2000. -/
  | timestamptz (microseconds : Int)
  | uuid (u : Uuid)
  | text (type : TextType) (s : String)
  | bytea (bytes : List Nat)
  | json (text : String)
  | jsonb (text : String)
deriving Inhabited

namespace Cell

def toJson : Cell → Json
  | int4 n | int8 n => Json.ofInt n
  | float8 (.finite x) => .number (.float x)
  | bool b => .bool b
  | uuid u => .string u.text
  | timestamptz n => .string (Instant.ofMicroseconds n).text
  | text _ s => .string s
  | json s | jsonb s => (Json.read? s).getD .null
  | _ => .null

def int8? : Cell → Option Int
  | int8 n => some n
  | _ => none

def bool? : Cell → Option Bool
  | bool b => some b
  | _ => none

def text? : Cell → Option String
  | text _ s => some s
  | _ => none

end Cell

/-- The record of a row with the given columns. Of columns with one name the last counts. -/
def recordOfRow (columns : List String) (cells : List Cell) : Record :=
  Record.ofList ((columns.zip cells).map fun cell => (cell.1, cell.2.toJson))

end Grove.Postgres
