import Grove.Failure
import Grove.Json.Printer
import Grove.Json.Reader

/-!
# The ledger of a collection

A database keeps a table for every collection. A table maps sequence numbers to the texts
of records and is read in the order of the numbers. A write is one transaction: it puts
and deletes everything it names, or it fails and changes nothing.

Records are kept as text, so what is read back is what the text stands for.
-/

namespace Grove

/-- The rows of a table, in the order of their sequence numbers. -/
abbrev Ledger := List (Nat × String)

namespace Ledger

def put (seq : Nat) (text : String) : Ledger → Ledger
  | [] => [(seq, text)]
  | row :: rows =>
    if seq = row.1 then (seq, text) :: rows
    else if seq < row.1 then (seq, text) :: row :: rows
    else row :: put seq text rows

def putAll (j : Ledger) (puts : List (Nat × Record)) : Ledger :=
  puts.foldl (fun j row => j.put row.1 row.2.compact) j

def deleteAll (j : Ledger) (deletes : List Nat) : Ledger :=
  j.filter fun row => !deletes.contains row.1

def readRecord? (text : String) : Option Record := (Json.read? text).bind Json.record?

def records? (j : Ledger) : Option (List (Nat × Record)) :=
  j.mapM fun row => (readRecord? row.2).map (row.1, ·)

end Ledger

/-- The tables by name. A database that refuses says why, and then every write fails. -/
structure Database where
  tables : List (String × Ledger) := []
  refusal : Option String := none
deriving Inhabited

namespace Database

def storageFailure (reason : String) : Failure := .internal ("document storage: " ++ reason)

/-- The table of a collection; one that was never made is empty. -/
def ledger (db : Database) (collection : String) : Ledger :=
  (db.tables.lookup collection).getD []

def replace (db : Database) (collection : String) (j : Ledger) : Database :=
  { db with tables := (collection, j) :: db.tables.filter (·.1 ≠ collection) }

def prepare (db : Database) (collection : String) : Except Failure Database :=
  match db.refusal with
  | some reason => .error (storageFailure reason)
  | none => .ok (db.replace collection (db.ledger collection))

def rows (db : Database) (collection : String) : Except Failure (List (Nat × Record)) :=
  match (db.ledger collection).records? with
  | some rows => .ok rows
  | none => .error (storageFailure "a stored record is not a JSON object")

/-- Puts and deletes rows of a collection in one transaction. -/
def write (db : Database) (collection : String) (puts : List (Nat × Record))
    (deletes : List Nat) : Except Failure Database :=
  match db.refusal with
  | some reason => .error (storageFailure reason)
  | none => .ok (db.replace collection (((db.ledger collection).putAll puts).deleteAll deletes))

end Database

end Grove
