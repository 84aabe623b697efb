import Grove.Config
import Grove.Text

/-!
# Who may do what

A resource says which methods are guarded and what each role may do. A method that is not
guarded is open to everyone. A guarded method needs a caller with a role that may do what
the method does.

Who calls is read from the headers of a request: one names a subject, one lists roles.
-/

namespace Grove

inductive Privilege where
  | read | create | update | delete
deriving DecidableEq, Inhabited

def Privilege.ofMethod? (method : String) : Option Privilege :=
  match method with
  | "GET" => some .read
  | "POST" => some .create
  | "PUT" | "PATCH" => some .update
  | "DELETE" => some .delete
  | _ => none

def Permissions.grants (p : Permissions) : Privilege → Bool
  | .read => p.read
  | .create => p.create
  | .update => p.update
  | .delete => p.delete

/-- The guarded methods, in upper case, with their strategies, and the roles with what they
may do. -/
structure AccessPolicy where
  strategies : List (String × String)
  rules : List (String × Permissions)
deriving DecidableEq, Inhabited

structure Principal where
  subject : Option String
  roles : List String
deriving DecidableEq, Inhabited

abbrev Headers := List (String × String)

namespace AccessPolicy

/-- The policy that a configuration describes. Methods are configured in any case; of
several that are the same method the last counts. -/
def ofConfig (c : AccessConfig) : AccessPolicy where
  strategies := (c.strategies.map fun s => (Text.upper s.1, s.2)).reverse
  rules := c.rules

def strategy? (p : AccessPolicy) (method : String) : Option String := p.strategies.lookup method

def permissions? (p : AccessPolicy) (role : String) : Option Permissions := p.rules.lookup role

def admits (p : AccessPolicy) (caller : Option Principal) (method : String) : Bool :=
  match p.strategy? method with
  | none => true
  | some _ =>
    match caller, Privilege.ofMethod? method with
    | some principal, some action =>
      (principal.roles.filterMap p.permissions?).any (·.grants action)
    | _, _ => false

end AccessPolicy

namespace Headers

/-- Whether a header's value is text: visible ASCII, blanks and tabs. -/
def isReadable (value : String) : Bool :=
  value.toList.all fun c => c = '\t' || (0x20 ≤ c.toNat && c.toNat < 0x7F)

/-- The value of the first header of that name, in any case. -/
def first? (hs : Headers) (name : String) : Option String :=
  (hs.find? fun h => Text.equalIgnoringCase h.1 name).map (·.2)

/-- The value of a header without blanks around it, if it is text and not blank. -/
def text? (hs : Headers) (name : String) : Option String := do
  let value ← hs.first? name
  if !isReadable value then none
  let trimmed := Text.trim value
  if trimmed = "" then none else some trimmed

def subjectName : String := "X-Subject"

def rolesName : String := "X-Roles"

/-- The caller that the headers name. Without a subject and roles there is none. -/
def principal? (hs : Headers) : Option Principal :=
  let subject := hs.text? subjectName
  let roles := (hs.text? rolesName).elim [] Text.entries
  if subject.isNone && roles.isEmpty then none else some ⟨subject, roles⟩

end Headers

end Grove
