import Grove.Backend
import Grove.Document.Collection
import Grove.Document.Ledger
import Grove.Supply

/-!
# Document stores

Documents live in collections in memory. If there is a database, every change is written
there first and made in memory only when the write has succeeded, so the two agree after
every operation, and one that fails leaves both as they were. Criteria are compiled
before anything else is looked at.
-/

namespace Grove

/-- The collections in memory, the database below them, if there is one, and where new
keys come from. -/
structure Archive where
  collections : List (String × Collection) := []
  database : Option Database := none
  supply : Supply

namespace Archive

/-- The collection of that name; one that was never opened is empty. -/
def collection (a : Archive) (name : String) : Collection := (a.collections.lookup name).getD {}

def replace (a : Archive) (name : String) (c : Collection) : Archive :=
  { a with collections := (name, c) :: a.collections.filter (·.1 ≠ name) }

/-- What is left when the process ends: the database. -/
def restarted (a : Archive) : Archive := { a with collections := [] }

end Archive

structure DocumentStore where
  collection : String
  keys : KeyPolicy
deriving DecidableEq, Inhabited

namespace Matcher

def ofCriteria (c : Option Criteria) : Except Failure Matcher :=
  match Criteria.filter c with
  | .error e => .error (.ofCriteria e)
  | .ok filter =>
    match ofFilter filter with
    | .error e => .error (.malformedCriteria e.message)
    | .ok m => .ok m

end Matcher

namespace DocumentStore

/-- Opens a collection: with what the database holds of it, or empty without one. -/
def opened (name : String) (keys : KeyPolicy) : Attempt Archive DocumentStore := do
  let archive ← get
  match archive.database with
  | none => set (archive.replace name {})
  | some database =>
    let database ← database.prepare name
    let rows ← database.rows name
    set { archive.replace name (.ofRows rows) with database := some database }
  return ⟨name, keys⟩

variable (s : DocumentStore)

def contents : Attempt Archive Collection := return (← get).collection s.collection

/-- Writes rows to the database, if there is one and there is anything to write. -/
def commit (puts : List (Nat × Record)) (deletes : List Nat) : Attempt Archive Unit := do
  let archive ← get
  match archive.database with
  | none => return
  | some database =>
    if puts.isEmpty && deletes.isEmpty then return
    let database ← database.write s.collection puts deletes
    set { archive with database := some database }

def replace (c : Collection) : Attempt Archive Unit := modify (·.replace s.collection c)

def freshKey : Attempt Archive String := do
  let archive ← get
  set { archive with supply := archive.supply.afterKey }
  return archive.supply.freshKey

/-- The failure that adding a record with a key that is taken is. -/
def keyTaken (key : Json) : Failure :=
  .conflict (s.collection ++ " " ++ key.compact ++ " already exists")

def add (record : Record) : Attempt Archive Record := do
  let record ← s.keys.complete freshKey record
  let key := s.keys.keyOf record
  let c ← s.contents
  if c.hasKey s.keys.primaryKey key then throw (s.keyTaken key)
  s.commit [(c.next, record)] []
  s.replace (c.push record)
  return record

def find (criteria : Option Criteria) : Attempt Archive (Option Record) := do
  let m ← Matcher.ofCriteria criteria
  return (← s.contents).records.find? fun r => m.accepts r

def query (criteria : Option Criteria) (options : Paging) :
    Attempt Archive (List Record) := do
  let m ← Matcher.ofCriteria criteria
  return (← s.contents).select m options

def count (criteria : Option Criteria) : Attempt Archive Nat := do
  let m ← Matcher.ofCriteria criteria
  return ((← s.contents).matching m).length

def update (criteria : Option Criteria) (changes : Record) : Attempt Archive Nat := do
  let m ← Matcher.ofCriteria criteria
  let changes := s.keys.withoutKey changes
  let c ← s.contents
  s.commit (c.changed m changes) []
  s.replace (c.update m changes)
  return (c.matching m).length

def remove (criteria : Option Criteria) : Attempt Archive Nat := do
  let m ← Matcher.ofCriteria criteria
  let c ← s.contents
  s.commit [] (c.doomed m)
  s.replace (c.remove m)
  return (c.matching m).length

end DocumentStore

namespace Archive

def now : Attempt Archive String := do
  let archive ← get
  set { archive with supply := archive.supply.afterReading }
  return archive.supply.time

/-- Resources kept as documents: every resource has a collection of its name. -/
def backend : Backend Archive DocumentStore where
  create r := DocumentStore.opened r.name r.keys
  keys := DocumentStore.keys
  add := DocumentStore.add
  find := DocumentStore.find
  query := DocumentStore.query
  count := DocumentStore.count
  update := DocumentStore.update
  remove := DocumentStore.remove
  now := now

end Archive

end Grove
