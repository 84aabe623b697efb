import Grove.Sql.Condition
import Grove.Window

/-!
# Statements on one table

The five statements of a table. Values are parameters throughout; the window of a
selection is numbers and is written out.
-/

namespace Grove.Sql

structure Table where
  schema : String
  name : String
deriving DecidableEq, Inhabited

def Table.reference (t : Table) : Statement := [.name t.schema, .word ".", .name t.name]

def Table.fullName (t : Table) : String := Statement.text t.reference

/-- The order of a selection: the keys, or the primary key when there are none. -/
def ordering (sort : List OrderKey) (primaryKey : String) : Statement :=
  .word " ORDER BY " ::
    match sort with
    | [] => [.name primaryKey]
    | keys =>
      Statement.separate ", " <| keys.map fun k =>
        [.name k.field, .word (if k.descending then " DESC" else " ASC")]

def select (t : Table) (filter : Condition) (sort : List OrderKey) (primaryKey : String)
    (w : Window) : Statement :=
  .word "SELECT * FROM " :: t.reference ++ filter.clause ++ ordering sort primaryKey ++
    [.word (" LIMIT " ++ toString w.limit ++ " OFFSET " ++ toString w.offset)]

def count (t : Table) (filter : Condition) : Statement :=
  .word "SELECT COUNT(*) FROM " :: t.reference ++ filter.clause

/-- Puts in every field of a record and gives back the row. -/
def insert (t : Table) (record : Record) : Statement :=
  let names := record.fields.map fun f => ([.name f.1] : Statement)
  let values := record.fields.map fun f => ([.parameter f.2 (some f.1)] : Statement)
  .word "INSERT INTO " :: t.reference ++ [.word " ("] ++ Statement.separate ", " names ++
    [.word ") VALUES ("] ++ Statement.separate ", " values ++ [.word ") RETURNING *"]

/-- Sets the fields of a record on the rows of the condition; nothing when there are
none. -/
def update (t : Table) (filter : Condition) (changes : Record) : Option Statement :=
  if changes.isEmpty then none
  else
    let sets := changes.fields.map fun f =>
      ([.name f.1, .word " = ", .parameter f.2 (some f.1)] : Statement)
    some (.word "UPDATE " :: t.reference ++ [.word " SET "] ++ Statement.separate ", " sets ++
      filter.clause)

def delete (t : Table) (filter : Condition) : Statement :=
  .word "DELETE FROM " :: t.reference ++ filter.clause

end Grove.Sql
