import Grove.Attempt
import Grove.Instant
import Grove.Resource
import Grove.Uuid

/-!
# New keys and the time

Two things come to the service from outside without being asked for by name: random bits
for new keys, and the time. A supply is the sequence of both together with how much of
each has been taken, so that what the service does is a function of its state.
-/

namespace Grove

structure Supply where
  randomBits : Nat → Nat
  clock : Nat → Instant
  keysTaken : Nat := 0
  readings : Nat := 0

namespace Supply

def freshKey (s : Supply) : String := (Uuid.ofRandomBits (s.randomBits s.keysTaken)).text

def afterKey (s : Supply) : Supply := { s with keysTaken := s.keysTaken + 1 }

def time (s : Supply) : String := (s.clock s.readings).text

def afterReading (s : Supply) : Supply := { s with readings := s.readings + 1 }

end Supply

namespace KeyPolicy

/-- The key of a record; a record without the field has the key null. -/
def keyOf (k : KeyPolicy) (r : Record) : Json := (r.get? k.primaryKey).getD .null

/-- Gives a record a key if it has none. Where keys are not assigned, such a record is
refused. -/
def complete {σ : Type} (k : KeyPolicy) (fresh : Attempt σ String) (r : Record) :
    Attempt σ Record := do
  if !(k.keyOf r).isNull then return r
  if !k.assigns then
    throw (.badRequest ("record requires primary key '" ++ k.primaryKey ++ "'"))
  return r.insert k.primaryKey (.string (← fresh))

/-- The changes without one of the key, since keys never change. -/
def withoutKey (k : KeyPolicy) (changes : Record) : Record := changes.erase k.primaryKey

end KeyPolicy

end Grove
