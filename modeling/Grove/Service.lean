import Grove.Steward
import Grove.Resource.Forest

/-!
# The running service

The service makes the store and the steward of a resource when it is first asked for
them and keeps them. A steward has the stores of its resource and of the parent, and the
stewards of the children. What fails is not kept, so it is tried again the next time;
what was made on the way is.
-/

namespace Grove

/-- The resources, what has been made for them so far, and the state of the backend. -/
structure Service (σ ρ : Type) where
  tree : Forest
  stores : List (String × ρ) := []
  stewards : List (String × Steward ρ) := []
  state : σ

namespace Service

variable {σ ρ α : Type}

def onBackend (x : Attempt σ α) : Attempt (Service σ ρ) α :=
  x.within Service.state fun s state => { s with state }

def resource (name : String) : Attempt (Service σ ρ) Resource := do
  match (← get).tree.get? name with
  | some r => return r
  | none => throw (.unknownResource name)

def store (b : Backend σ ρ) (name : String) : Attempt (Service σ ρ) ρ := do
  let r ← resource name
  match (← get).stores.lookup name with
  | some made => return made
  | none =>
    let made ← onBackend (b.create r)
    modify fun s => { s with stores := (name, made) :: s.stores }
    return made

def parentRef (b : Backend σ ρ) (r : Resource) :
    Attempt (Service σ ρ) (Option (ParentRef ρ)) := do
  match r.parent, r.ownerField with
  | some parent, some field => return some ⟨parent, field, ← store b parent⟩
  | _, _ => return none

def childRef (parent child : Resource) : ChildRef :=
  ⟨child.name, child.ownerField.getD (Resource.keyParam parent.name), child.cascadeDelete⟩

/-- The steward of a resource. The first argument bounds how far the resources below it
go down. -/
def stewardAt (b : Backend σ ρ) : Nat → String → Attempt (Service σ ρ) (Steward ρ)
  | 0, name => throw (.config (.cycle name))
  | levels + 1, name => do
    let r ← resource name
    match (← get).stewards.lookup name with
    | some made => return made
    | none =>
      let own ← store b name
      let parent ← parentRef b r
      let children ← r.children.mapM fun childName => do
        let child ← resource childName
        return (childRef r child, ← stewardAt b levels childName)
      let made := Steward.mk r own parent children
      modify fun s => { s with stewards := (name, made) :: s.stewards }
      return made

def steward (b : Backend σ ρ) (name : String) : Attempt (Service σ ρ) (Steward ρ) := do
  stewardAt b ((← get).tree.size + 1) name

/-- The service after its process has been started again, with what the backend keeps. -/
def restarted (s : Service σ ρ) (state : σ) : Service σ ρ := { tree := s.tree, state }

end Service

end Grove
