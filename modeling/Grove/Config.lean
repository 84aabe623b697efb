/-!
# Configuration

A service is described by a list of resources. Each names the resource that its own
records belong to, if any, the table and key of its records, and who may do what with
them. What is left out has a default.
-/

namespace Grove

/-- The fields that hold when a record was made and when it was last changed. -/
structure Stamps where
  created : String := "createdAt"
  modified : String := "modifiedAt"
deriving DecidableEq, Inhabited

structure Permissions where
  read : Bool := false
  create : Bool := false
  update : Bool := false
  delete : Bool := false
deriving DecidableEq, Inhabited

structure AccessConfig where
  strategies : List (String × String) := []
  rules : List (String × Permissions) := []
deriving DecidableEq, Inhabited

structure ResourceEntry where
  name : String
  parent : Option String := none
  /-- Stands in the place of the base path of the service. -/
  basePath : Option String := none
  primaryKey : String := "uuid"
  /-- Whether records without a key are given one. -/
  assignsKeys : Bool := true
  /-- The field that each path parameter constrains, where that is not the parameter's
  own name. -/
  criteriaKeys : List (String × String) := []
  /-- The table, if it is not called like the resource. -/
  table : Option String := none
  schema : String := "public"
  timestamps : Option Stamps := none
  /-- Whether records go when the record they belong to goes. -/
  cascadeDelete : Bool := false
  access : AccessConfig := {}
deriving DecidableEq, Inhabited

structure Config where
  basePath : String := ""
  resources : List ResourceEntry := []
deriving DecidableEq, Inhabited

end Grove
