import Grove.Backend
import Grove.Postgres.Server
import Grove.Supply

/-!
# Tables as stores

A resource in a relational database has a table. The types of its columns are read once,
when the store is made, and every value goes to the server as one of its column's type.
Criteria become a condition before anything is sent.
-/

namespace Grove

structure TableStore where
  table : Sql.Table
  keys : KeyPolicy
  columns : List (String × Sql.ColumnClass) := []
deriving DecidableEq, Inhabited

structure Gateway (ω : Type) where
  world : ω
  supply : Supply

namespace Gateway

variable {ω α : Type}

def onServer (x : Attempt ω α) : Attempt (Gateway ω) α :=
  x.within Gateway.world fun g world => { g with world }

def freshKey : Attempt (Gateway ω) String := do
  let g ← get
  set { g with supply := g.supply.afterKey }
  return g.supply.freshKey

def now : Attempt (Gateway ω) String := do
  let g ← get
  set { g with supply := g.supply.afterReading }
  return g.supply.time

end Gateway

namespace TableStore

open Postgres

variable {ω : Type}

def columnQuery : String :=
  "SELECT column_name, data_type FROM information_schema.columns " ++
    "WHERE table_schema = $1 AND table_name = $2"

/-- The kind of the column that a row of the catalogue describes. -/
def columnOfRow (row : List Cell) : Except DatabaseError (String × Sql.ColumnClass) := do
  let name ← Reply.cell Cell.text? row 0
  let type ← Reply.cell Cell.text? row 1
  return (name, Sql.ColumnClass.ofDataType type)

/-- Makes the store of a table. Of columns with one name the last counts. -/
def opened (server : Server ω) (table : Sql.Table) (keys : KeyPolicy) :
    Attempt (Gateway ω) TableStore := do
  let reply ← Gateway.onServer (server.run columnQuery [.text table.schema, .text table.name])
  let columns ← must (reply.rows.mapM columnOfRow)
  return { table, keys, columns := columns.reverse }

variable (server : Server ω) (s : TableStore)

def kind? (column : String) : Option Sql.ColumnClass := s.columns.lookup column

/-- The parameters of a statement, each as one of its column's type. -/
def parameters (statement : Sql.Statement) : List Sql.Parameter :=
  (Sql.Statement.parameters statement).map fun p => Sql.Parameter.boundTo p.1 (p.2.bind s.kind?)

def run (statement : Sql.Statement) : Attempt (Gateway ω) Reply :=
  Gateway.onServer (server.run (Sql.Statement.text statement) (s.parameters statement))

def condition (criteria : Option Criteria) : Except Failure Sql.Condition :=
  (Criteria.condition criteria).mapError .ofCriteria

def add (record : Record) : Attempt (Gateway ω) Record := do
  let record ← s.keys.complete Gateway.freshKey record
  let reply ← s.run server (Sql.insert s.table record)
  return recordOfRow reply.columns (← must reply.firstRow)

def find (criteria : Option Criteria) : Attempt (Gateway ω) (Option Record) := do
  let c ← condition criteria
  let reply ← s.run server (Sql.select s.table c [] s.keys.primaryKey ⟨1, 0⟩)
  return reply.records.head?

def query (criteria : Option Criteria) (options : Paging) :
    Attempt (Gateway ω) (List Record) := do
  let c ← condition criteria
  let reply ← s.run server (Sql.select s.table c options.sort s.keys.primaryKey options.window)
  return reply.records

/-- Counts records; a count below nothing is nothing. -/
def count (criteria : Option Criteria) : Attempt (Gateway ω) Nat := do
  let c ← condition criteria
  let reply ← s.run server (Sql.count s.table c)
  let row ← must reply.firstRow
  let n ← must (Reply.cell Cell.int8? row 0)
  return n.toNat

/-- Changes records. Without anything to set no statement is sent and nothing counts. -/
def update (criteria : Option Criteria) (changes : Record) : Attempt (Gateway ω) Nat := do
  let c ← condition criteria
  match Sql.update s.table c (s.keys.withoutKey changes) with
  | none => return 0
  | some statement => return (← s.run server statement).affected

def remove (criteria : Option Criteria) : Attempt (Gateway ω) Nat := do
  let c ← condition criteria
  return (← s.run server (Sql.delete s.table c)).affected

end TableStore

namespace Gateway

def backend {ω : Type} (server : Postgres.Server ω) : Backend (Gateway ω) TableStore where
  create r := TableStore.opened server r.table r.keys
  keys := TableStore.keys
  add s := s.add server
  find s := s.find server
  query s := s.query server
  count s := s.count server
  update s := s.update server
  remove s := s.remove server
  now := now

end Gateway

end Grove
