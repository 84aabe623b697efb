import Grove.Directory
import Grove.Proofs.Criteria.Values
import Grove.Proofs.Steward.Stamps

/-!
# Signing up

Whoever signs up gets the account that lists the first of the addresses that are given, or a
new one if there is none (`signUp_eq_ok`). A new account is stored with all its addresses,
and the others of them are not looked up. So two accounts can have an address in common
(`address_listed_twice`), but only in one way: it is not the first address of the later one
(`first_address_unlisted`).

A sign-up puts at most one account at the end and changes no other, also when it fails
halfway (`accounts_of_signUp`). That is all the invariant needs, so it holds along every run.
-/

namespace Grove

namespace Archive

def accounts (a : Archive) : Collection := a.collection Directory.accountsName

def logins (a : Archive) : Collection := a.collection Directory.loginsName

end Archive

/-- A search for a text finds the first record that has it in the field, alone or in a list. -/
theorem Steward.outcome_find_text {t : Forest} {m : Steward DocumentStore}
    (hm : m.Complete DocumentStore.ofResource t) (field : String)
    (hname : Criteria.checkName field = .ok ()) (text : String) (a : Archive) :
    (m.find Archive.backend (some (.eq field (.string text)))).outcome a =
      (.ok ((a.collection m.resource.name).records.find? fun r =>
        Json.equalField (Matcher.fieldAt r (Text.split '.' field)) (.string text)), a) := by
  have hcompiled : Matcher.ofCriteria (some (.eq field (.string text))) =
      .ok (.all [.field (Text.split '.' field) [.equals (.string text)]]) :=
    (Criteria.ofCriteria_compare hname rfl).mpr
      ⟨_, Criteria.fieldChecks_of_not_isTests rfl, rfl⟩
  have hfind :=
    (DocumentStore.ofResource m.resource).outcome_find a (some (.eq field (.string text)))
  rw [hcompiled] at hfind
  rw [Steward.find, hm.store_eq]
  refine hfind.trans ?_
  simp only [Except.map, Criteria.accepts_field, List.all_cons, List.all_nil, Bool.and_true]
  rfl

namespace Directory

def emailPath : List String := ["profile", "emails"]

def emails (account : Record) : List String :=
  match Matcher.fieldAt account emailPath with
  | some (.array items) => items.filterMap Json.string?
  | _ => []

/-- Whether a search for the address selects the account. -/
def lists (email : String) (account : Record) : Bool :=
  Json.equalField (Matcher.fieldAt account emailPath) (.string email)

/-- The stewards are those of the two resources in the tree. -/
structure Placed (t : Forest) (d : Directory DocumentStore) : Prop where
  accounts : d.accounts.resource.name = accountsName
  logins : d.logins.resource.name = loginsName
  accountsComplete : d.accounts.Complete DocumentStore.ofResource t
  loginsComplete : d.logins.Complete DocumentStore.ofResource t

/-- The archives that come about when people sign up, from one without records on. -/
inductive SignedUp (d : Directory DocumentStore) : Archive → Prop
  | fresh {a : Archive} (accounts : a.accounts.rows = []) (logins : a.logins.rows = []) :
      SignedUp d a
  | signUp {a : Archive} (h : SignedUp d a) (account login : Record) :
      SignedUp d ((d.signUp Archive.backend account login).outcome a).2
  /-- The database begins to refuse what is written, or takes it again. -/
  | refusing {a : Archive} (h : SignedUp d a) {db : Database} (hd : a.database = some db)
      (reason : Option String) :
      SignedUp d { a with database := some { db with refusal := reason } }

/-- Nobody's first address is one that an account before has. -/
def FirstUnlisted (accounts : List Record) : Prop :=
  accounts.Pairwise fun earlier later =>
    ∀ email ∈ emails earlier, (emails later).head? ≠ some email

/-! ## Addresses -/

theorem fieldAt_emailPath (account : Record) :
    Matcher.fieldAt account emailPath =
      (account.get? "profile").bind fun profile => Matcher.walk profile ["emails"] := rfl

theorem firstEmail?_eq (account : Record) :
    firstEmail? account = match Matcher.fieldAt account emailPath with
      | some (.array items) => items.head?.bind Json.string?
      | _ => none := by
  rw [fieldAt_emailPath, firstEmail?]
  rcases account.get? "profile" with _ | profile
  · rfl
  · cases profile with
    | object members =>
        simp only [Matcher.walk, Json.record?, Record.get?, Option.bind_eq_bind, Option.bind_some]
        rcases members.lookup "emails" with _ | emails
        · rfl
        · cases emails <;> rfl
    | null | bool | number | string | array => rfl

theorem head?_emails {account : Record} {email : String} (h : firstEmail? account = some email) :
    (emails account).head? = some email := by
  rw [firstEmail?_eq] at h
  rw [emails]
  split at h
  · next items hitems =>
      obtain ⟨item, hitem, hstring⟩ := Option.bind_eq_some_iff.mp h
      obtain ⟨rest, rfl⟩ := List.head?_eq_some_iff.mp hitem
      rw [List.filterMap_cons, hstring]
      rfl
  · cases h

theorem lists_of_mem {account : Record} {email : String} (h : email ∈ emails account) :
    lists email account = true := by
  rw [emails] at h
  split at h
  · next items hitems =>
      obtain ⟨item, hitem, hstring⟩ := List.mem_filterMap.mp h
      rw [lists, hitems]
      refine List.any_eq_true.mpr ⟨item, hitem, ?_⟩
      cases item with
      | string s =>
          cases hstring
          exact beq_self_eq_true _
      | null | bool | number | array | object => cases hstring
  · cases h

/-- An account that is stored has the addresses that it was given, unless its profile is
overwritten by a stamp, and then it has none. -/
theorem emails_of_stores {r : Resource} {time : String} {account stored : Record}
    (h : r.Stores time account stored) {email : String}
    (hemail : firstEmail? account = some email) :
    emails stored = emails account ∨ r.IsStamp "profile" ∧ emails stored = [] := by
  by_cases hstamp : r.IsStamp "profile"
  · refine .inr ⟨hstamp, ?_⟩
    rw [emails, fieldAt_emailPath, h.stamped _ hstamp]
    rfl
  · obtain ⟨profile, hgiven, hrecord⟩ := Option.bind_eq_some_iff.mp hemail
    have hprofile : profile.isNull = false := by
      cases profile with
      | null => cases hrecord
      | bool | number | string | array | object => rfl
    refine .inl ?_
    rw [emails, emails, fieldAt_emailPath, fieldAt_emailPath,
      h.get?_of_given hstamp hgiven hprofile, hgiven]

theorem FirstUnlisted.push {accounts : List Record} (h : FirstUnlisted accounts) {r : Resource}
    {time : String} {account stored : Record} (hstores : r.Stores time account stored)
    {email : String} (hemail : firstEmail? account = some email)
    (hnone : accounts.find? (lists email) = none) : FirstUnlisted (accounts ++ [stored]) := by
  refine List.pairwise_append.mpr ⟨h, List.pairwise_singleton _ _, ?_⟩
  intro earlier hearlier later hlater listed hlisted hfirst
  rw [List.mem_singleton.mp hlater] at hfirst
  -- only the first address of the new account was looked for, and that is the one at stake
  obtain hsame | ⟨-, hnothing⟩ := emails_of_stores hstores hemail
  · rw [hsame, head?_emails hemail] at hfirst
    cases hfirst
    exact List.find?_eq_none.mp hnone earlier hearlier (lists_of_mem hlisted)
  · rw [hnothing] at hfirst
    cases hfirst

/-! ## The steps of a sign-up -/

section Steps

variable {σ ρ : Type}

/-- The account that lists an address, or else the given one, stored. -/
def findOrAdd (b : Backend σ ρ) (d : Directory ρ) (account : Record) (email : String) :
    Attempt σ Record := do
  match ← d.findAccount b email with
  | some existing => pure existing
  | none => d.accounts.add b account

def enroll (b : Backend σ ρ) (d : Directory ρ) (login account : Record) : Attempt σ SignUp := do
  match account.get? (d.accounts.primaryKey b) with
  | none => throw (.internal "stored account has no primary key")
  | some key =>
    let login ← d.logins.add b (login.insert d.accountLink key)
    return ⟨account, login⟩

theorem signUp_eq (b : Backend σ ρ) (d : Directory ρ) (account login : Record) :
    d.signUp b account login = match firstEmail? account with
      | none => throw (.badRequest "account.profile.emails is required")
      | some email => d.findOrAdd b account email >>= d.enroll b login := by
  rw [signUp]
  cases firstEmail? account with
  | none => rfl
  | some email =>
      simp only [findOrAdd, bind_assoc]
      congr 1
      funext found
      cases found with
      | none => rfl
      | some held => simp only [pure_bind]; rfl

end Steps

section Placed

variable {t : Forest} {d : Directory DocumentStore}

theorem placed_of_service {config : Config} (hc : Forest.ofConfig config = .ok t)
    {s u : Service Archive DocumentStore} (hs : Service.InUse Archive.backend t s)
    (hd : (Directory.ofService Archive.backend).outcome s = (.ok d, u)) : Placed t d := by
  have ht := Forest.sound_of_ofConfig hc
  obtain ⟨accounts, v, haccounts, hd⟩ := Attempt.outcome_bind_eq_ok.mp hd
  obtain ⟨logins, w, hlogins, hd⟩ := Attempt.outcome_bind_eq_ok.mp hd
  cases hd
  have hv : Service.InUse Archive.backend t v := by
    have hused := hs.steward accountsName
    rwa [haccounts] at hused
  obtain ⟨hname, hcomplete⟩ := Service.complete_of_inUse Archive.backend_makes ht hs haccounts
  obtain ⟨hname', hcomplete'⟩ := Service.complete_of_inUse Archive.backend_makes ht hv hlogins
  exact ⟨hname, hname', hcomplete, hcomplete'⟩

variable (hd : Placed t d)

include hd

theorem outcome_findAccount (email : String) (a : Archive) :
    (d.findAccount Archive.backend email).outcome a =
      (.ok (a.accounts.records.find? (lists email)), a) := by
  have hfind := Steward.outcome_find_text hd.accountsComplete "profile.emails" rfl email a
  rw [hd.accounts] at hfind
  exact hfind

theorem outcome_findOrAdd (account : Record) (email : String) (a : Archive) :
    (d.findOrAdd Archive.backend account email).outcome a =
      match a.accounts.records.find? (lists email) with
      | some existing => (.ok existing, a)
      | none => (d.accounts.add Archive.backend account).outcome a := by
  rw [findOrAdd, Attempt.outcome_bind, outcome_findAccount hd]
  cases a.accounts.records.find? (lists email) <;> rfl

/-- The account is found, or it is added at the end, or nothing comes of it. -/
theorem findOrAdd_cases (account : Record) (email : String) (a : Archive) :
    (∃ f b, (d.findOrAdd Archive.backend account email).outcome a = (.error f, b) ∧
      ∀ name, b.collection name = a.collection name) ∨
    (∃ found, a.accounts.records.find? (lists email) = some found ∧
      (d.findOrAdd Archive.backend account email).outcome a = (.ok found, a)) ∨
    ∃ stored b, a.accounts.records.find? (lists email) = none ∧
      (d.findOrAdd Archive.backend account email).outcome a = (.ok stored, b) ∧
      b.accounts = a.accounts.push stored ∧
      (∀ other, other ≠ accountsName → b.collection other = a.collection other) ∧
      d.accounts.resource.Stores a.supply.time account stored := by
  rw [outcome_findOrAdd hd]
  cases hfind : a.accounts.records.find? (lists email) with
  | some found => exact .inr (.inl ⟨found, rfl, rfl⟩)
  | none =>
      obtain ⟨f, b, hadd, hsame⟩ | ⟨stored, b, hadd, hown, hothers, hstores⟩ :=
        Steward.add_cases hd.accountsComplete a account
      · exact .inl ⟨f, b, hadd, hsame⟩
      · rw [hd.accounts] at hown hothers
        exact .inr (.inr ⟨stored, b, rfl, hadd, hown, hothers, hstores⟩)

theorem enroll_cases (login account : Record) (a : Archive) :
    (∃ f b, (d.enroll Archive.backend login account).outcome a = (.error f, b) ∧
      ∀ name, b.collection name = a.collection name) ∨
    ∃ stored b, (d.enroll Archive.backend login account).outcome a = (.ok ⟨account, stored⟩, b) ∧
      b.logins = a.logins.push stored ∧
      ∀ other, other ≠ loginsName → b.collection other = a.collection other := by
  rw [enroll]
  cases account.get? (d.accounts.primaryKey Archive.backend) with
  | none => exact .inl ⟨_, a, rfl, fun _ => rfl⟩
  | some key =>
      simp only []
      rw [Attempt.outcome_bind]
      obtain ⟨f, b, hadd, hsame⟩ | ⟨stored, b, hadd, hown, hothers, -⟩ :=
        Steward.add_cases hd.loginsComplete a (login.insert d.accountLink key)
      · rw [hadd]
        exact .inl ⟨f, b, rfl, hsame⟩
      · rw [hadd]
        rw [hd.logins] at hown hothers
        exact .inr ⟨stored, b, rfl, hown, hothers⟩

theorem accounts_of_enroll (login account : Record) (a : Archive) :
    ((d.enroll Archive.backend login account).outcome a).2.accounts = a.accounts := by
  obtain ⟨f, b, henroll, hsame⟩ | ⟨stored, b, henroll, -, hothers⟩ :=
    enroll_cases hd login account a
  · rw [henroll]
    exact hsame accountsName
  · rw [henroll]
    exact hothers accountsName (by decide)

/-- Whatever comes of a sign-up, the accounts are as before, or there is one more at the end
that nobody before it has the first address of. -/
theorem accounts_of_signUp (account login : Record) (a : Archive) :
    ((d.signUp Archive.backend account login).outcome a).2.accounts = a.accounts ∨
    ∃ email stored, firstEmail? account = some email ∧
      a.accounts.records.find? (lists email) = none ∧
      d.accounts.resource.Stores a.supply.time account stored ∧
      ((d.signUp Archive.backend account login).outcome a).2.accounts = a.accounts.push stored := by
  rw [signUp_eq]
  cases hemail : firstEmail? account with
  | none => exact .inl rfl
  | some email =>
      simp only []
      rw [Attempt.outcome_bind]
      obtain ⟨f, b, hfirst, hsame⟩ | ⟨found, -, hfirst⟩ |
        ⟨stored, b, hnone, hfirst, hown, -, hstores⟩ := findOrAdd_cases hd account email a
      · rw [hfirst]
        exact .inl (hsame accountsName)
      · rw [hfirst]
        exact .inl (accounts_of_enroll hd login found a)
      · rw [hfirst]
        refine .inr ⟨email, stored, rfl, hnone, hstores, ?_⟩
        exact (accounts_of_enroll hd login stored b).trans hown

/-- A sign-up that succeeds has taken an account or stored one, and then stored a way to log
in that holds the key of the account. -/
theorem signUp_steps {account login : Record} {a b : Archive} {done : SignUp}
    (h : (d.signUp Archive.backend account login).outcome a = (.ok done, b)) :
    ∃ email u key, firstEmail? account = some email ∧
      (d.findOrAdd Archive.backend account email).outcome a = (.ok done.account, u) ∧
      done.account.get? d.accounts.resource.keys.primaryKey = some key ∧
      (d.logins.add Archive.backend (login.insert d.accountLink key)).outcome u =
        (.ok done.login, b) := by
  rw [signUp_eq] at h
  cases hemail : firstEmail? account with
  | none =>
      rw [hemail] at h
      cases h
  | some email =>
      rw [hemail] at h
      obtain ⟨taken, u, htaken, h⟩ := Attempt.outcome_bind_eq_ok.mp h
      have hkeys : d.accounts.primaryKey Archive.backend =
          d.accounts.resource.keys.primaryKey := by
        rw [Steward.primaryKey, hd.accountsComplete.store_eq]
        rfl
      rw [enroll, hkeys] at h
      cases hkey : taken.get? d.accounts.resource.keys.primaryKey with
      | none =>
          rw [hkey] at h
          cases h
      | some key =>
          rw [hkey] at h
          obtain ⟨stored, v, hadd, h⟩ := Attempt.outcome_bind_eq_ok.mp h
          cases h
          exact ⟨email, u, key, rfl, htaken, hkey, hadd⟩

/-- A sign-up that succeeds takes the first account that lists the first address, or adds the
given one, and in any case adds a way to log in. -/
theorem signUp_eq_ok {account login : Record} {a b : Archive} {done : SignUp}
    (h : (d.signUp Archive.backend account login).outcome a = (.ok done, b)) :
    ∃ email, firstEmail? account = some email ∧
      b.logins = a.logins.push done.login ∧
      match a.accounts.records.find? (lists email) with
      | some found => done.account = found ∧ b.accounts = a.accounts
      | none => d.accounts.resource.Stores a.supply.time account done.account ∧
          b.accounts = a.accounts.push done.account := by
  obtain ⟨email, u, key, hemail, htaken, -, hadd⟩ := signUp_steps hd h
  obtain ⟨hlogins, haccounts, -⟩ := Steward.added_of_add hd.loginsComplete hadd
  rw [hd.logins] at hlogins haccounts
  have hkept : b.accounts = u.accounts := haccounts accountsName (by decide)
  refine ⟨email, hemail, ?_⟩
  rw [outcome_findOrAdd hd] at htaken
  cases hfind : a.accounts.records.find? (lists email) with
  | some found =>
      rw [hfind] at htaken
      cases htaken
      exact ⟨hlogins, rfl, hkept⟩
  | none =>
      rw [hfind] at htaken
      obtain ⟨hown, hothers, hstores⟩ := Steward.added_of_add hd.accountsComplete htaken
      rw [hd.accounts] at hown hothers
      have hsame : u.logins = a.logins := hothers loginsName (by decide)
      exact ⟨hsame ▸ hlogins, hstores, hkept.trans hown⟩

/-! ## Any number of sign-ups -/

theorem SignedUp.firstUnlisted {a : Archive} (h : SignedUp d a) :
    FirstUnlisted a.accounts.records := by
  induction h with
  | fresh accounts logins =>
      rw [Collection.records, accounts]
      exact .nil
  | @signUp a h account login ih =>
      obtain hkept | ⟨email, stored, hemail, hnone, hstores, hpushed⟩ :=
        accounts_of_signUp hd account login a
      · rw [hkept]
        exact ih
      · rw [hpushed, Collection.records_push]
        exact ih.push hstores hemail hnone
  | refusing h hdatabase reason ih => exact ih

end Placed

/-- Along any run of sign-ups no account comes to have a first address that is listed in an
account before it. A sign-up that succeeds takes the account that lists the first address, or
else there is a new one with all the addresses, unless the time is stamped over them. -/
theorem first_address_unlisted {config : Config} {t : Forest}
    (hc : Forest.ofConfig config = .ok t) {s u : Service Archive DocumentStore}
    (hs : Service.InUse Archive.backend t s) {d : Directory DocumentStore}
    (hd : (Directory.ofService Archive.backend).outcome s = (.ok d, u)) {a : Archive}
    (ha : SignedUp d a) :
    (a.accounts.records.Pairwise fun earlier later =>
      ∀ email ∈ emails earlier, (emails later).head? ≠ some email) ∧
    ∀ account login done b,
      (d.signUp Archive.backend account login).outcome a = (.ok done, b) →
      ∃ email, (emails account).head? = some email ∧ b.logins = a.logins.push done.login ∧
        match a.accounts.records.find? (lists email) with
        | some found => done.account = found ∧ b.accounts = a.accounts
        | none => b.accounts = a.accounts.push done.account ∧
            (emails done.account = emails account ∨
              d.accounts.resource.IsStamp "profile" ∧ emails done.account = []) := by
  have hplaced := placed_of_service hc hs hd
  refine ⟨ha.firstUnlisted hplaced, fun account login done b hdone => ?_⟩
  obtain ⟨email, hemail, hlogins, haccounts⟩ := signUp_eq_ok hplaced hdone
  refine ⟨email, head?_emails hemail, hlogins, ?_⟩
  cases hfind : a.accounts.records.find? (lists email) with
  | some found =>
      rw [hfind] at haccounts
      exact haccounts
  | none =>
      rw [hfind] at haccounts
      exact ⟨haccounts.2, emails_of_stores haccounts.1 hemail⟩

/-! ## A club -/

def club : Config where
  resources := [{ name := "accounts" }, { name := "auths", parent := some "accounts" }]

def clubTree : Forest := ⟨club.resources.map club.place⟩

theorem club_tree : Forest.ofConfig club = .ok clubTree :=
  Forest.ofConfig_of_check (by decide +kernel)

def clubDirectory : Directory DocumentStore :=
  let accounts := club.place { name := "accounts" }
  let logins := club.place { name := "auths", parent := some "accounts" }
  let login : Steward DocumentStore :=
    .mk logins (.ofResource logins) (some ⟨"accounts", "accountsId", .ofResource accounts⟩) []
  ⟨.mk accounts (.ofResource accounts) none [(Service.childRef accounts logins, login)], login⟩

def member (key : String) (emails : List String) : Record :=
  .ofList [("uuid", .string key),
    ("profile", Json.ofFields [("emails", .array (emails.map .string))])]

def clubStart : Archive where
  supply := { randomBits := fun n => n, clock := fun _ => default }

def ordinaryLogin (key : String) : Record := .ofList [("uuid", .string key)]

/-- Bob signs up after Ann, and lists her address after his. -/
def twoMembers : Archive :=
  let ann := (clubDirectory.signUp Archive.backend (member "ann" ["ann@x.net"])
    (ordinaryLogin "l1")).outcome clubStart
  ((clubDirectory.signUp Archive.backend (member "bob" ["bob@x.net", "ann@x.net"])
    (ordinaryLogin "l2")).outcome ann.2).2

def clubService : Service Archive DocumentStore := { tree := clubTree, state := clubStart }

theorem club_directory :
    ∃ u, (Directory.ofService Archive.backend).outcome clubService = (.ok clubDirectory, u) :=
  ⟨_, rfl⟩

theorem signedUp_twoMembers : SignedUp clubDirectory twoMembers :=
  ((SignedUp.fresh (a := clubStart) rfl rfl).signUp _ _).signUp _ _

theorem emails_twoMembers : twoMembers.accounts.records.map emails =
    [["ann@x.net"], ["bob@x.net", "ann@x.net"]] := by
  decide +kernel

/-- Bob's account was not found by the address that he has in common with Ann. -/
theorem address_listed_twice :
    Forest.ofConfig club = .ok clubTree ∧
    (∃ u, (Directory.ofService Archive.backend).outcome clubService = (.ok clubDirectory, u)) ∧
    SignedUp clubDirectory twoMembers ∧
    ¬ twoMembers.accounts.records.Pairwise fun earlier later =>
      ∀ email ∈ emails earlier, email ∉ emails later := by
  refine ⟨club_tree, club_directory, signedUp_twoMembers, fun hapart => ?_⟩
  have hemails : (twoMembers.accounts.records.map emails).Pairwise fun earlier later =>
      ∀ email ∈ earlier, email ∉ later := List.pairwise_map.mpr hapart
  rw [emails_twoMembers] at hemails
  revert hemails
  decide

/-- Whoever signs up with Ann's address first gets her account, and Bob has another. -/
theorem first_address_unlisted_club :
    Forest.ofConfig club = .ok clubTree ∧ Service.InUse Archive.backend clubTree clubService ∧
    (∃ u, (Directory.ofService Archive.backend).outcome clubService = (.ok clubDirectory, u)) ∧
    SignedUp clubDirectory twoMembers ∧ twoMembers.accounts.records.length = 2 ∧
    (twoMembers.accounts.records.Pairwise fun earlier later =>
      ∀ email ∈ emails earlier, (emails later).head? ≠ some email) ∧
    ∃ done b, (clubDirectory.signUp Archive.backend (member "eve" ["ann@x.net", "eve@x.net"])
        (ordinaryLogin "l3")).outcome twoMembers = (.ok done, b) ∧
      (done.account.get? "uuid").bind Json.string? = some "ann" ∧
      b.accounts = twoMembers.accounts ∧ b.logins = twoMembers.logins.push done.login := by
  have hs : Service.InUse Archive.backend clubTree clubService := .fresh _
  obtain ⟨u, hd⟩ := club_directory
  obtain ⟨hunlisted, hsignUps⟩ := first_address_unlisted club_tree hs hd signedUp_twoMembers
  refine ⟨club_tree, hs, ⟨u, hd⟩, signedUp_twoMembers, ?_, hunlisted, ?_⟩
  · have hlength := congrArg List.length emails_twoMembers
    rwa [List.length_map] at hlength
  · have hrun : (match (clubDirectory.signUp Archive.backend
          (member "eve" ["ann@x.net", "eve@x.net"]) (ordinaryLogin "l3")).outcome twoMembers with
        | (.ok done, _) => (done.account.get? "uuid").bind Json.string?
        | (.error _, _) => none) = some "ann" := by decide +kernel
    have hlisted : (twoMembers.accounts.records.find? (lists "ann@x.net")).isSome = true := by
      decide +kernel
    rcases hdone : (clubDirectory.signUp Archive.backend
      (member "eve" ["ann@x.net", "eve@x.net"]) (ordinaryLogin "l3")).outcome twoMembers with
      ⟨f | done, b⟩ <;> rw [hdone] at hrun
    · cases hrun
    obtain ⟨email, hemail, hlogins, haccounts⟩ := hsignUps _ _ _ _ hdone
    obtain rfl : "ann@x.net" = email :=
      Option.some.inj ((by decide +kernel : some "ann@x.net" = _).trans hemail)
    obtain ⟨found, hfound⟩ := Option.isSome_iff_exists.mp hlisted
    rw [hfound] at haccounts
    exact ⟨done, b, rfl, hrun, haccounts.2, hlogins⟩

end Directory

end Grove
