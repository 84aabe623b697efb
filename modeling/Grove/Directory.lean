import Grove.Service

/-!
# Accounts

People have accounts, and the ways in which they log in are kept as records that belong to
an account. Signing up uses the account that has the person's first e-mail address, or
makes one, and adds a way to log in to it. A service without a root account makes one with
a way to log in that everybody knows.
-/

namespace Grove

structure Directory (ρ : Type) where
  accounts : Steward ρ
  logins : Steward ρ

structure SignUp where
  account : Record
  login : Record

namespace Directory

variable {σ ρ : Type}

def accountsName : String := "accounts"

def loginsName : String := "auths"

def ofService (b : Backend σ ρ) : Attempt (Service σ ρ) (Directory ρ) := do
  let accounts ← Service.steward b accountsName
  let logins ← Service.steward b loginsName
  return ⟨accounts, logins⟩

/-- The field of a way to log in that holds the key of its account. -/
def accountLink (d : Directory ρ) : String := d.logins.ownerField.getD "account"

def emailCriteria (email : String) : Criteria := .eq "profile.emails" (.string email)

def findAccount (b : Backend σ ρ) (d : Directory ρ) (email : String) :
    Attempt σ (Option Record) :=
  d.accounts.find b (some (emailCriteria email))

def loginCriteria (source id : String) : Criteria :=
  .logical .and [.eq "authSource" (.string source), .eq "authId" (.string id)]

/-- The way to log in that a source knows by an identifier, with its account in it. -/
def findLogin (b : Backend σ ρ) (d : Directory ρ) (source id : String) :
    Attempt σ (Option Record) := do
  match ← d.logins.find b (some (loginCriteria source id)) with
  | none => return none
  | some login => return some (← d.logins.attach b login [accountsName])

def firstEmail? (account : Record) : Option String := do
  let profile ← (← account.get? "profile").record?
  let emails ← (← profile.get? "emails").array?
  (← emails.head?).string?

/-- Adds a way to log in to the account with the first e-mail address of the given one, or
to the given one if there is none yet. -/
def signUp (b : Backend σ ρ) (d : Directory ρ) (account login : Record) :
    Attempt σ SignUp := do
  match firstEmail? account with
  | none => throw (.badRequest "account.profile.emails is required")
  | some email =>
    let account ← match ← d.findAccount b email with
      | some existing => pure existing
      | none => d.accounts.add b account
    match account.get? (d.accounts.primaryKey b) with
    | none => throw (.internal "stored account has no primary key")
    | some key =>
      let login ← d.logins.add b (login.insert d.accountLink key)
      return ⟨account, login⟩

def rootCriteria : Criteria := .eq "kind" (.string "root")

def rootAccount : Record := .ofList [
  ("kind", .string "root"),
  ("roles", .array [.string "root"]),
  ("status", .string "enabled"),
  ("displayName", .string "Root"),
  ("profile", Json.ofFields [("emails", .array [.string "changeme@root.net"])])]

def rootLogin : Record := .ofList [
  ("authSource", .string "local"),
  ("authId", .string "root"),
  ("password", .string "root")]

/-- Makes the root account if there is no account of that kind, and says whether it did. -/
def ensureRoot (b : Backend σ ρ) (d : Directory ρ) : Attempt σ Bool := do
  match ← d.accounts.find b (some rootCriteria) with
  | some _ => return false
  | none =>
    let _ ← d.signUp b rootAccount rootLogin
    return true

end Directory

end Grove
