import Grove.Config
import Grove.Failure
import Grove.Json.Reader

/-!
# Reading a configuration

A configuration is JSON text. Members that mean nothing are passed over, whatever they
hold. A member that means something may not be repeated, and null is a value only where
leaving the member out is one. A structure may also be an array of its members' values,
in order; the last ones may be left out if they have defaults.
-/

namespace Grove

namespace Json.Raw

def text? : Raw → Option String
  | .string s => s
  | _ => none

def bool? : Raw → Option Bool
  | .bool b => some b
  | _ => none

def optional? {α : Type} (read : Raw → Option α) : Raw → Option (Option α)
  | .null => some none
  | v => (read v).map some

def list? {α : Type} (read : Raw → Option α) : Raw → Option (List α)
  | .array items => items.mapM read
  | _ => none

/-- Of several entries with one name, the last. -/
def lastOfEach {α : Type} : List (String × α) → List (String × α)
  | [] => []
  | entry :: rest =>
    if rest.any (·.1 == entry.1) then lastOfEach rest else entry :: lastOfEach rest

/-- A member with the name it must have and its value. -/
def named? {α : Type} (read : Raw → Option α) (m : Option String × Raw) : Option (String × α) :=
  match m.1, read m.2 with
  | some name, some value => some (name, value)
  | _, _ => none

/-- The entries of an object whose names are free. -/
def entries? {α : Type} (read : Raw → Option α) : Raw → Option (List (String × α))
  | .object members => (members.mapM (named? read)).map lastOfEach
  | _ => none

/-- The members with the given names; none of them may be there twice. -/
def knownMembers (names : List String) :
    List (Option String × Raw) → Option (List (String × Raw))
  | [] => some []
  | (name, value) :: rest => do
    let name ← name
    let others ← knownMembers names rest
    if !names.contains name then some others
    else if others.any (·.1 == name) then none
    else some ((name, value) :: others)

/-- The members of a structure, given by name or in order. -/
def members? (names : List String) : Raw → Option (List (String × Raw))
  | .object members => knownMembers names members
  | .array items => if names.length < items.length then none else some (names.zip items)
  | _ => none

/-- The value of a member, or what it is when it is left out. -/
def member {α : Type} (members : List (String × Raw)) (name : String) (default : Option α)
    (read : Raw → Option α) : Option α :=
  match members.lookup name with
  | some v => read v
  | none => default

end Json.Raw

open Json Raw

def Stamps.ofRaw? (v : Raw) : Option Stamps := do
  let ms ← v.members? ["created", "modified"]
  let default : Stamps := {}
  some {
    created := ← member ms "created" default.created text?
    modified := ← member ms "modified" default.modified text? }

def Permissions.ofRaw? (v : Raw) : Option Permissions := do
  let ms ← v.members? ["read", "create", "update", "delete"]
  some {
    read := ← member ms "read" false bool?
    create := ← member ms "create" false bool?
    update := ← member ms "update" false bool?
    delete := ← member ms "delete" false bool? }

def AccessConfig.ofRaw? (v : Raw) : Option AccessConfig := do
  let ms ← v.members? ["strategies", "rules"]
  some {
    strategies := ← member ms "strategies" (some []) (entries? text?)
    rules := ← member ms "rules" (some []) (entries? Permissions.ofRaw?) }

namespace ResourceEntry

def memberNames : List String :=
  ["name", "parent", "base_path", "primary_key", "auto_set_pk", "criteria_keys", "table",
    "schema", "timestamps", "cascade_delete", "auth"]

def ofRaw? (v : Raw) : Option ResourceEntry := do
  let ms ← v.members? memberNames
  let default : ResourceEntry := { name := "" }
  some {
    name := ← member ms "name" none text?
    parent := ← member ms "parent" (some none) (optional? text?)
    basePath := ← member ms "base_path" (some none) (optional? text?)
    primaryKey := ← member ms "primary_key" default.primaryKey text?
    assignsKeys := ← member ms "auto_set_pk" default.assignsKeys bool?
    criteriaKeys := ← member ms "criteria_keys" (some []) (entries? text?)
    table := ← member ms "table" (some none) (optional? text?)
    schema := ← member ms "schema" default.schema text?
    timestamps := ← member ms "timestamps" (some none) (optional? Stamps.ofRaw?)
    cascadeDelete := ← member ms "cascade_delete" default.cascadeDelete bool?
    access := ← member ms "auth" default.access AccessConfig.ofRaw? }

end ResourceEntry

namespace Config

def ofRaw? (v : Raw) : Option Config := do
  let ms ← v.members? ["base_path", "resources"]
  some {
    basePath := ← member ms "base_path" "" text?
    resources := ← member ms "resources" (some []) (list? ResourceEntry.ofRaw?) }

def read (text : String) : Except ConfigProblem Config :=
  match (Raw.read? none text).bind ofRaw? with
  | some c => .ok c
  | none => .error (.load "not a resource configuration")

def ofFile (content : Option String) : Except ConfigProblem Config :=
  match content with
  | some text => read text
  | none => .error (.load "no such file")

end Config

def AccessConfig.read? (text : String) : Option AccessConfig :=
  (Raw.read? none text).bind AccessConfig.ofRaw?

end Grove
