import Grove.Resource
import Grove.Config.Validation

/-!
# The tree of resources

`Forest.ofConfig` checks a configuration and works out, for every resource, its
children and the path that leads to it. The path runs from the root of the tree to the
resource: each resource on the way adds its base path, its name and, unless it is the
last one, the parameter for one of its records.
-/

namespace Grove

/-- The resources in the order of the configuration. -/
structure Forest where
  resources : List Resource
deriving DecidableEq, Inhabited

namespace Config

/-- The segments of a path; separators in a row count as one. -/
def nonEmptySegments (path : String) : List String := (Text.split '/' path).filter (· ≠ "")

/-- The base path of a resource: its own or, for one without a parent, the service's. -/
def basePathOf (c : Config) (r : ResourceEntry) : String :=
  match r.basePath, r.parent with
  | some path, _ => path
  | none, none => c.basePath
  | none, some _ => ""

/-- The resource and those above it, from it to the root. The first argument bounds how
many there are. -/
def lineage (c : Config) : Nat → ResourceEntry → List ResourceEntry
  | 0, r => [r]
  | fuel + 1, r =>
    match r.parent.bind c.find? with
    | none => [r]
    | some p => r :: lineage c fuel p

/-- The segments that lead to the collection of a resource, its base path first. -/
def collectionSegments (c : Config) (r : ResourceEntry) : List String :=
  nonEmptySegments (c.basePathOf r) ++ [r.name]

/-- The segments that lead to one record of a resource. -/
def itemSegments (c : Config) (r : ResourceEntry) : List String :=
  c.collectionSegments r ++ [Resource.braced (Resource.keyParam r.name)]

/-- The path of the collection that a line of resources leads to. -/
def collectionPath (c : Config) : List ResourceEntry → String
  | [] => "/"
  | r :: above =>
    "/" ++ String.intercalate "/"
      (above.reverse.flatMap c.itemSegments ++ c.collectionSegments r)

/-- The resource with what its place in the configuration makes of it. -/
def place (c : Config) (r : ResourceEntry) : Resource :=
  let line := c.lineage c.resources.length r
  { name := r.name
    parent := r.parent
    children := (c.resources.filter fun child => child.parent == some r.name).map (·.name)
    keys := ⟨r.primaryKey, r.assignsKeys⟩
    criteriaKeys := r.criteriaKeys
    table := ⟨r.schema, r.table.getD r.name⟩
    timestamps := r.timestamps
    cascadeDelete := r.cascadeDelete
    access := AccessPolicy.ofConfig r.access
    collectionPath := c.collectionPath line
    ancestorParams := line.tail.reverse.map fun above => Resource.keyParam above.name }

end Config

namespace Forest

def get? (t : Forest) (name : String) : Option Resource :=
  t.resources.find? (·.name == name)

def size (t : Forest) : Nat := t.resources.length

def ofConfig (c : Config) : Except ConfigProblem Forest := do
  c.check
  return ⟨c.resources.map c.place⟩

end Forest

end Grove
