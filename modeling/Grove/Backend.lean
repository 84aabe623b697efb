import Grove.Attempt
import Grove.Criteria
import Grove.Resource
import Grove.Window

/-!
# Backends

A backend keeps the records of resources somewhere. It makes a store for each resource and
puts the same few operations on every store. Without criteria an operation means all
records. A backend also tells the time, which stamps records.

`σ` is what the backend's state is, and `ρ` names one of its stores.
-/

namespace Grove

structure Backend (σ ρ : Type) where
  /-- Makes the store of a resource. -/
  create : Resource → Attempt σ ρ
  keys : ρ → KeyPolicy
  /-- Stores a record and returns it as it is stored. -/
  add : ρ → Record → Attempt σ Record
  /-- The first record that the criteria select. -/
  find : ρ → Option Criteria → Attempt σ (Option Record)
  query : ρ → Option Criteria → Paging → Attempt σ (List Record)
  count : ρ → Option Criteria → Attempt σ Nat
  /-- Sets fields of the records that the criteria select, and counts those records. -/
  update : ρ → Option Criteria → Record → Attempt σ Nat
  /-- Removes the records that the criteria select, and counts them. -/
  remove : ρ → Option Criteria → Attempt σ Nat
  /-- Reads the clock. -/
  now : Attempt σ String

namespace Backend

variable {σ ρ : Type}

def keyCriteria (b : Backend σ ρ) (store : ρ) (key : Json) : Criteria :=
  .eq (b.keys store).primaryKey key

def findByKey (b : Backend σ ρ) (store : ρ) (key : Json) : Attempt σ (Option Record) :=
  b.find store (some (b.keyCriteria store key))

def removeByKey (b : Backend σ ρ) (store : ρ) (key : Json) : Attempt σ Nat :=
  b.remove store (some (b.keyCriteria store key))

end Backend

end Grove
