import Grove.Backend

/-!
# Observed backends

A backend behind a watch writes down every call before it makes it, and may be told to
refuse some operations of some resources. A refused call is written down as well, and
nothing else happens. Otherwise the backend behaves as it does without the watch.
-/

namespace Grove

inductive Operation where
  | create | add | find | query | count | update | remove
deriving DecidableEq, Inhabited

/-- A call of a backend. Only a query has options. -/
structure Call where
  resource : String
  operation : Operation
  criteria : Option Criteria := none
  options : Option Paging := none
deriving Inhabited

/-- A backend's state with the calls so far and the operations that are refused. -/
structure Observed (σ : Type) where
  state : σ
  calls : List Call := []
  faults : List (String × List Operation) := []

structure ObservedStore (ρ : Type) where
  resource : String
  store : ρ

namespace Observed

variable {σ ρ α : Type}

def refuses (o : Observed σ) (resource : String) (operation : Operation) : Bool :=
  (o.faults.lookup resource).any (·.contains operation)

/-- Refuses the given operations of a resource from now on, and no others of it. -/
def fail (o : Observed σ) (resource : String) (operations : List Operation) : Observed σ :=
  { o with faults := (resource, operations) :: o.faults.filter (·.1 ≠ resource) }

def unavailable : Failure := .internal "storage unavailable"

def unseen (x : Attempt σ α) : Attempt (Observed σ) α :=
  x.within Observed.state fun o state => { o with state }

/-- Makes a call, unless it is refused, and writes it down. -/
def watch (call : Call) (x : Attempt σ α) : Attempt (Observed σ) α := do
  let o ← get
  set { o with calls := o.calls ++ [call] }
  if o.refuses call.resource call.operation then throw unavailable
  unseen x

end Observed

namespace Backend

variable {σ ρ : Type}

def observed (b : Backend σ ρ) : Backend (Observed σ) (ObservedStore ρ) where
  create r := Observed.watch ⟨r.name, .create, none, none⟩
    (return ⟨r.name, ← b.create r⟩)
  keys s := b.keys s.store
  add s record := Observed.watch ⟨s.resource, .add, none, none⟩ (b.add s.store record)
  find s c := Observed.watch ⟨s.resource, .find, c, none⟩ (b.find s.store c)
  query s c o := Observed.watch ⟨s.resource, .query, c, some o⟩ (b.query s.store c o)
  count s c := Observed.watch ⟨s.resource, .count, c, none⟩ (b.count s.store c)
  update s c changes := Observed.watch ⟨s.resource, .update, c, none⟩
    (b.update s.store c changes)
  remove s c := Observed.watch ⟨s.resource, .remove, c, none⟩ (b.remove s.store c)
  now := Observed.unseen b.now

end Backend

end Grove
