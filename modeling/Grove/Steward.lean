import Grove.Backend

/-!
# Stewards

A steward stands between requests and the store of one resource and does what follows
from the resource's place in the tree. It stamps records with the time, puts related
records into the ones that are read, and before records are removed it removes the
records below them in resources that ask for that.

A removal goes down the tree first: every resource is emptied of what depends on the
records before the records themselves go. So if it stops halfway, what is left still has
its keys, and the same removal can be tried again.
-/

namespace Grove

/-- How records of a resource belong to records of its parent: which of their fields holds
the key, and where the parent's records are. -/
structure ParentRef (ρ : Type) where
  resource : String
  field : String
  store : ρ

/-- How records of a child belong to records of the resource: which field of theirs holds
the key, and whether they are removed with them. -/
structure ChildRef where
  resource : String
  field : String
  cascades : Bool
deriving DecidableEq, Inhabited

inductive Steward (ρ : Type) where
  | mk (resource : Resource) (store : ρ) (parent : Option (ParentRef ρ))
      (children : List (ChildRef × Steward ρ))

namespace Steward

variable {σ ρ : Type}

def resource : Steward ρ → Resource
  | mk r _ _ _ => r

def store : Steward ρ → ρ
  | mk _ s _ _ => s

def parent : Steward ρ → Option (ParentRef ρ)
  | mk _ _ p _ => p

def children : Steward ρ → List (ChildRef × Steward ρ)
  | mk _ _ _ cs => cs

def primaryKey (b : Backend σ ρ) (m : Steward ρ) : String := (b.keys m.store).primaryKey

def ownerField (m : Steward ρ) : Option String := m.parent.map (·.field)

def stamp (b : Backend σ ρ) (m : Steward ρ) (record : Record) : Attempt σ Record := do
  match m.resource.timestamps with
  | none => return record
  | some t =>
    let now := Json.string (← b.now)
    return (record.insert t.created now).insert t.modified now

/-- Puts the time into changes; they cannot say when a record was created. -/
def restamp (b : Backend σ ρ) (m : Steward ρ) (changes : Record) : Attempt σ Record := do
  match m.resource.timestamps with
  | none => return changes
  | some t => return (changes.erase t.created).insert t.modified (.string (← b.now))

def add (b : Backend σ ρ) (m : Steward ρ) (record : Record) : Attempt σ Record := do
  b.add m.store (← m.stamp b record)

def find (b : Backend σ ρ) (m : Steward ρ) (c : Option Criteria) : Attempt σ (Option Record) :=
  b.find m.store c

def findByKey (b : Backend σ ρ) (m : Steward ρ) (key : Json) : Attempt σ (Option Record) :=
  b.findByKey m.store key

def count (b : Backend σ ρ) (m : Steward ρ) (c : Option Criteria) : Attempt σ Nat :=
  b.count m.store c

def update (b : Backend σ ρ) (m : Steward ρ) (c : Option Criteria) (changes : Record) :
    Attempt σ Nat := do
  b.update m.store c (← m.restamp b changes)

/-- Stamps the records anew. Where records have no stamps it only counts them. -/
def refresh (b : Backend σ ρ) (m : Steward ρ) (c : Option Criteria) : Attempt σ Nat := do
  match m.resource.timestamps with
  | none => b.count m.store c
  | some t =>
    b.update m.store c (Record.empty.insert t.modified (.string (← b.now)))

/-! ## Related records -/

/-- The failure that asking for a resource that is no relative is. -/
def unrelated (m : Steward ρ) (name : String) : Failure :=
  .badRequest ("'" ++ name ++ "' is not related to '" ++ m.resource.name ++ "'")

/-- The record that a record belongs to, or null. -/
def parentRecord (b : Backend σ ρ) (link : ParentRef ρ) (record : Record) : Attempt σ Json := do
  let key := (record.get? link.field).getD .null
  if key.isNull then return .null
  match ← b.findByKey link.store key with
  | some parent => return .object parent.fields
  | none => return .null

/-- The records of a child that belong to a record, in a window of the usual size. -/
def childRecords (b : Backend σ ρ) (m : Steward ρ) (link : ChildRef) (child : Steward ρ)
    (record : Record) : Attempt σ Json := do
  let key := (record.get? (m.primaryKey b)).getD .null
  let records ← b.query child.store (some (.eq link.field key)) {}
  return .array (records.map fun r => .object r.fields)

/-- The related records that a name means. The parent comes before a child of its name. -/
def related (b : Backend σ ρ) (m : Steward ρ) (record : Record) (name : String) :
    Attempt σ Json :=
  match m.parent.filter (·.resource == name) with
  | some link => parentRecord b link record
  | none =>
    match m.children.find? (·.1.resource == name) with
    | some (link, child) => m.childRecords b link child record
    | none => throw (m.unrelated name)

/-- Puts related records into a record, under the names they are asked for by. -/
def attach (b : Backend σ ρ) (m : Steward ρ) (record : Record) : List String → Attempt σ Record
  | [] => return record
  | name :: names => do
    let value ← m.related b record name
    m.attach b (record.insert name value) names

def query (b : Backend σ ρ) (m : Steward ρ) (c : Option Criteria) (o : Paging) :
    Attempt σ (List Record) := do
  let records ← b.query m.store c o
  records.mapM fun record => m.attach b record o.fetch

/-! ## Removal -/

/-- The failure that more records are than offsets can tell apart. -/
def offsetsUsedUp : Failure := .internal "attempt to add with overflow"

/-- The keys of the records that the criteria select, from an offset on. They are read in
windows of the largest size, and a window that is not full is the last one. It is a failure
if every window of the range is full. -/
def keysFrom (b : Backend σ ρ) (store : ρ) (c : Option Criteria) : Nat → Nat → Attempt σ (List Json)
  | 0, _ => throw offsetsUsedUp
  | windows + 1, offset => do
    let page ← b.query store c { limit := some Window.largestSize, offset := some offset }
    let keys := page.filterMap (·.get? (b.keys store).primaryKey)
    if page.length < Window.largestSize then return keys
    return keys ++ (← keysFrom b store c windows (offset + Window.largestSize))

/-- How many windows of the largest size the range of offsets has. -/
def windowsOfRange : Nat := Text.maxUnsigned32 / Window.largestSize + 1

/-- The keys of the records that the criteria select. -/
def selectedKeys (b : Backend σ ρ) (store : ρ) (c : Option Criteria) : Attempt σ (List Json) :=
  keysFrom b store c windowsOfRange 0

/-- The criteria that select the records of a child that belong to records with the keys. -/
def belongingTo (link : ChildRef) (keys : List Json) : Criteria :=
  .compare .isIn link.field (.array keys)

mutual

/-- Removes the records that the criteria select, and before them what depends on them. -/
def remove (b : Backend σ ρ) (c : Option Criteria) : Steward ρ → Attempt σ Nat
  | mk _ store _ children => do
    if children.any (·.1.cascades) then
      let keys ← selectedKeys b store c
      if !keys.isEmpty then removeBelow b keys children
    b.remove store c

/-- Removes from the children that ask for it the records that belong to the keys. -/
def removeBelow (b : Backend σ ρ) (keys : List Json) :
    List (ChildRef × Steward ρ) → Attempt σ Unit
  | [] => return
  | (link, child) :: rest => do
    if link.cascades then
      let _ ← remove b (some (belongingTo link keys)) child
    removeBelow b keys rest

end

def removeByKey (b : Backend σ ρ) (m : Steward ρ) (key : Json) : Attempt σ Nat :=
  m.remove b (some (b.keyCriteria m.store key))

end Steward

end Grove
