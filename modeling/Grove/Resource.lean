import Grove.Access
import Grove.Sql.Statement

/-!
# Resources

A resource as the service runs it: its place in the tree, the paths that lead to its
records and the fields that the parameters in those paths constrain.
-/

namespace Grove

structure KeyPolicy where
  primaryKey : String
  /-- Whether records without a key are given one. -/
  assigns : Bool
deriving DecidableEq, Inhabited

structure Resource where
  name : String
  parent : Option String
  children : List String
  keys : KeyPolicy
  criteriaKeys : List (String × String)
  table : Sql.Table
  timestamps : Option Stamps
  cascadeDelete : Bool
  access : AccessPolicy
  /-- The path of the collection, with parameters in braces. -/
  collectionPath : String
  /-- The parameters of the collection's path, from the root of the tree on. -/
  ancestorParams : List String
deriving DecidableEq, Inhabited

namespace Resource

def keyParam (resource : String) : String := resource ++ "Id"

def braced (param : String) : String := "\x7b" ++ param ++ "\x7d"

def ownParam (r : Resource) : String := keyParam r.name

def recordPath (r : Resource) : String := r.collectionPath ++ "/" ++ braced r.ownParam

/-- The field that a path parameter constrains. The resource's own parameter means the
field that `id` is mapped to or else the primary key, and a parameter without a mapping
means the field of its name. -/
def fieldOf (r : Resource) (param : String) : String :=
  match r.criteriaKeys.lookup param with
  | some field => field
  | none =>
    if param = r.ownParam then (r.criteriaKeys.lookup "id").getD r.keys.primaryKey else param

/-- The field that holds the key of the record that a record belongs to. -/
def ownerField (r : Resource) : Option String := r.parent.map fun p => r.fieldOf (keyParam p)

end Resource

/-- The path with its parameters written with a colon, the way routes are. -/
def routePattern (path : String) : String :=
  String.intercalate "/" <| (Text.split '/' path).map fun segment =>
    match segment.toList with
    | '\x7b' :: rest =>
      if rest.getLast? = some '\x7d' then ":" ++ String.ofList rest.dropLast else segment
    | _ => segment

end Grove
