import Grove.Config
import Grove.Failure

/-!
# Configurations that make a tree

A configuration is usable when every name can be a segment of a path and names one
resource, when every parent is a resource, and when going from parent to parent comes to
an end. Two passes check this: first every resource on its own and its name against those
before it, then the parents.
-/

namespace Grove.Config

def guardableMethods : List String := ["GET", "POST", "PUT", "PATCH", "DELETE"]

/-- Whether the name is one segment of a path and no parameter. -/
def isSegment (name : String) : Bool :=
  !(Text.has name '/' || Text.has name '\x7b' || Text.has name ':')

/-- Checks one resource; `earlier` holds the names before it. -/
def checkResource (earlier : List String) (r : ResourceEntry) : Except ConfigProblem Unit := do
  if Text.isAllBlank r.name then throw (.validation .blankName)
  if !isSegment r.name then throw (.validation (.notASegment r.name))
  if earlier.contains r.name then throw (.duplicateResource r.name)
  if r.primaryKey = "" then throw (.validation (.emptyPrimaryKey r.name))
  match r.access.strategies.find? fun s => !guardableMethods.contains (Text.upper s.1) with
  | some s => throw (.validation (.unknownMethod r.name s.1))
  | none => return

def checkResources (earlier : List String) : List ResourceEntry → Except ConfigProblem Unit
  | [] => .ok ()
  | r :: rs => do
    checkResource earlier r
    checkResources (r.name :: earlier) rs

def find? (c : Config) (name : String) : Option ResourceEntry :=
  c.resources.find? (·.name == name)

/-- The parent that a name has, if it names a resource that has one. -/
def parentOf (c : Config) (name : String) : Option String :=
  (c.find? name).bind (·.parent)

/-- Whether going from parent to parent comes to an end before it has passed more names
than `fuel`. A chain without repetition passes each resource once and perhaps, at its end,
a name that is none. -/
def reachesRoot (c : Config) : Nat → String → Bool
  | 0, _ => false
  | fuel + 1, name =>
    match c.parentOf name with
    | none => true
    | some parent => reachesRoot c fuel parent

def checkParent (c : Config) (r : ResourceEntry) : Except ConfigProblem Unit := do
  match r.parent with
  | some p => if (c.find? p).isNone then throw (.missingReference .parentResource p)
  | none => pure ()
  if !c.reachesRoot (c.resources.length + 1) r.name then throw (.cycle r.name)

def check (c : Config) : Except ConfigProblem Unit := do
  checkResources [] c.resources
  c.resources.forM c.checkParent

end Grove.Config
