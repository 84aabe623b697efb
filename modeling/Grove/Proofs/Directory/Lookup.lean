import Grove.Proofs.Directory.SignUp
import Grove.Proofs.Service.Settled

/-!
# Looking up a sign-up

Whoever has signed up can log in: the way to log in is found again by what it is known by,
and with it the account that it was made for. Two things can come between. Another record
could be found first, and is not because none was known by that source and identifier before.
And the account is found by its key alone, so another account could be found in its place. This
is ruled out by what every running service keeps true (`Service.Reached.sound_of_kept`), that
no two accounts have one key, and by the keys being texts, since only a text that is the same
answers to a text (`Collection.find?_key`).

The key travels through four hands: it is drawn or given when the account is stored, it is
read from the stored account, it is put into the way to log in under one name, and it is read
from there under the same name. That it arrives takes that the fields do not get into each
other's way (`FieldsApart`).
-/

namespace Grove

def Resource.stampNames (r : Resource) : List String :=
  match r.timestamps with
  | none => []
  | some stamps => [stamps.created, stamps.modified]

theorem Resource.isStamp_iff {r : Resource} {field : String} :
    r.IsStamp field ↔ field ∈ r.stampNames := by
  rw [IsStamp, stampNames]
  cases r.timestamps <;> simp

/-- In a sound collection in which all keys are texts a record is found by its key. -/
theorem Collection.find?_key {c : Collection} {keys : KeyPolicy} (h : c.Sound keys)
    (htexts : ∀ r ∈ c.records, ∃ key, keys.keyOf r = .string key) {r : Record}
    (hr : r ∈ c.records) :
    (c.records.find? fun held =>
      (keys.keyOf held).same (keys.keyOf r) || (keys.keyOf held).answersTo (keys.keyOf r)) =
      some r := by
  have hsome : (c.records.find? fun held =>
      (keys.keyOf held).same (keys.keyOf r) || (keys.keyOf held).answersTo (keys.keyOf r)).isSome :=
    List.find?_isSome.mpr ⟨r, hr, by rw [Json.same_refl, Bool.true_or]⟩
  obtain ⟨found, hfound⟩ := Option.isSome_iff_exists.mp hsome
  have hmem := List.mem_of_find?_eq_some hfound
  obtain ⟨key, hkey⟩ := htexts found hmem
  have hsame : (keys.keyOf found).same (keys.keyOf r) = true := by
    have hanswers := List.find?_some hfound
    rw [hkey] at hanswers ⊢
    simpa [Json.answersTo] using hanswers
  obtain ⟨row, hrow, rfl⟩ := List.mem_map.mp hr
  obtain ⟨other, hother, rfl⟩ := List.mem_map.mp hmem
  rw [hfound, h.eq_of_same hother hrow hsame]

/-! ## What is stored -/

namespace DocumentStore

variable {s : DocumentStore} {record stored : Record} {a b : Archive}

/-- A record that comes without a key, or with a text for a key, is stored with a text. -/
theorem text_key_of_add (h : (s.add record).outcome a = (.ok stored, b))
    (hkey : (s.keys.keyOf record).isNull = true ∨ ∃ key, s.keys.keyOf record = .string key) :
    ∃ key, s.keys.keyOf stored = .string key := by
  rw [add_eq, Attempt.outcome_bind, outcome_complete] at h
  by_cases hnull : (s.keys.keyOf record).isNull = false
  · rw [if_pos hnull] at h
    rw [(insertNew_eq_ok h).1]
    exact hkey.resolve_left (by simp [hnull])
  · rw [if_neg hnull] at h
    by_cases hassigns : s.keys.assigns = false
    · rw [if_pos hassigns] at h
      cases h
    · rw [if_neg hassigns] at h
      rw [(insertNew_eq_ok h).1, KeyPolicy.keyOf, Record.get?_insert, if_pos rfl]
      exact ⟨_, rfl⟩

end DocumentStore

namespace Steward

variable {t : Forest} {m : Steward DocumentStore} {record stored : Record} {a b : Archive}

theorem text_key_of_add (hm : m.Complete DocumentStore.ofResource t)
    (h : (m.add Archive.backend record).outcome a = (.ok stored, b))
    (hstamp : ¬ m.resource.IsStamp m.resource.keys.primaryKey)
    (hkey : (m.resource.keys.keyOf record).isNull = true ∨
      ∃ key, m.resource.keys.keyOf record = .string key) :
    ∃ key, m.resource.keys.keyOf stored = .string key := by
  obtain ⟨stamped, supply, hadd, -, hgiven⟩ := outcome_add hm a record
  have hsame : m.resource.keys.keyOf stamped = m.resource.keys.keyOf record := by
    rw [KeyPolicy.keyOf, KeyPolicy.keyOf, hgiven _ hstamp]
  exact DocumentStore.text_key_of_add (hadd.symm.trans h) (hsame ▸ hkey)

theorem sound_of_add (hm : m.Complete DocumentStore.ofResource t)
    (h : (m.add Archive.backend record).outcome a = (.ok stored, b))
    (hsound : (a.collection m.resource.name).Sound m.resource.keys) :
    (b.collection m.resource.name).Sound m.resource.keys := by
  obtain ⟨stamped, supply, hadd, -⟩ := outcome_add hm a record
  obtain ⟨hnull, hkey, hown, -⟩ := DocumentStore.pushed_of_add (hadd.symm.trans h)
  have hpushed : b.collection m.resource.name = (a.collection m.resource.name).push stored := hown
  rw [hpushed]
  exact hsound.push hnull hkey

end Steward

namespace Directory

/-! ## Who is found -/

def known (source id : String) (login : Record) : Bool :=
  Json.equalField (login.get? "authSource") (.string source) &&
    Json.equalField (login.get? "authId") (.string id)

/-- A way to log in is read with the account whose key it holds. -/
theorem outcome_attach_account {d : Directory DocumentStore} {a : Archive} {login account : Record}
    {link key : String} {accounts : Resource}
    (hparent : d.logins.parent = some ⟨accountsName, link, .ofResource accounts⟩)
    (hplain : accounts.keys.Plain) (hlink : login.get? link = some (.string key))
    (haccount : ((a.collection accounts.name).records.find? fun held =>
      (accounts.keys.keyOf held).same (.string key) ||
        (accounts.keys.keyOf held).answersTo (.string key)) = some account) :
    (d.logins.attach Archive.backend login [accountsName]).outcome a =
      (.ok (login.insert accountsName (.object account.fields)), a) := by
  have hrelated : (d.logins.related Archive.backend login accountsName).outcome a =
      (.ok (.object account.fields), a) := by
    have hvalue : (Json.string key).isTests = false := rfl
    obtain ⟨m, hm, haccepts⟩ :=
      DocumentStore.matcher_of_key (s := .ofResource accounts) hplain hvalue
    have hfound :
        (Archive.backend.findByKey (DocumentStore.ofResource accounts) (.string key)).outcome a =
          (.ok (some account), a) := by
      have hfind := (DocumentStore.ofResource accounts).outcome_find a
        (some (Archive.backend.keyCriteria (.ofResource accounts) (.string key)))
      rw [hm, Except.map, funext haccepts] at hfind
      exact hfind.trans (by rw [← haccount]; rfl)
    rw [Steward.related, hparent]
    simp only [Option.filter_some, beq_self_eq_true, if_true, Steward.parentRecord, hlink,
      Option.getD_some, Json.isNull]
    rw [if_neg Bool.false_ne_true, Attempt.outcome_bind, hfound]
    rfl
  rw [Steward.attach, Attempt.outcome_bind, hrelated]
  rfl

section Placed

variable {t : Forest} {d : Directory DocumentStore} (hd : Placed t d) {a b : Archive}
  {account login : Record} {done : SignUp} {source id : String}

include hd

theorem outcome_findLogin (source id : String) (a : Archive) :
    (d.findLogin Archive.backend source id).outcome a =
      match a.logins.records.find? (known source id) with
      | none => (.ok none, a)
      | some login =>
        (some <$> d.logins.attach Archive.backend login [accountsName]).outcome a := by
  have hcompiled : Matcher.ofCriteria (some (loginCriteria source id)) =
      .ok (.all [.all [.all [.field (Text.split '.' "authSource") [.equals (.string source)]],
        .all [.field (Text.split '.' "authId") [.equals (.string id)]]]]) := rfl
  have hfind : (d.logins.find Archive.backend (some (loginCriteria source id))).outcome a =
      (.ok (a.logins.records.find? (known source id)), a) := by
    have hfind := (DocumentStore.ofResource d.logins.resource).outcome_find a
      (some (loginCriteria source id))
    have haccepts : (fun login : Record => Matcher.accepts login
        (.all [.all [.all [.field (Text.split '.' "authSource") [.equals (.string source)]],
          .all [.field (Text.split '.' "authId") [.equals (.string id)]]]])) =
        known source id := by
      funext login
      simp only [Matcher.accepts, Matcher.acceptsAll, List.all_cons, List.all_nil, Bool.and_true,
        Matcher.fieldAt_flat (by decide : Text.has "authSource" '.' = false),
        Matcher.fieldAt_flat (by decide : Text.has "authId" '.' = false), FieldCheck.accepts]
      rfl
    rw [hcompiled, Except.map, haccepts] at hfind
    rw [Steward.find, hd.loginsComplete.store_eq, Archive.logins, ← hd.logins]
    exact hfind
  rw [findLogin, Attempt.outcome_bind, hfind]
  cases a.logins.records.find? (known source id) with
  | none => rfl
  | some login =>
      simp only []
      rw [← bind_pure_comp]

/-- Where a look-up finds nobody, nobody is known by what was looked for. -/
theorem find?_known_of_findLogin
    (h : ((d.findLogin Archive.backend source id).outcome a).1 = .ok none) :
    a.logins.records.find? (known source id) = none := by
  rw [outcome_findLogin hd] at h
  cases hfind : a.logins.records.find? (known source id) with
  | none => rfl
  | some other =>
      simp only [hfind, Attempt.outcome_map] at h
      obtain ⟨_, -, hsome⟩ := map_eq_ok.mp h
      cases hsome

/-- Where nobody was known by it, the way to log in that is stored next is the one found. -/
theorem outcome_findLogin_of_push (hnone : a.logins.records.find? (known source id) = none)
    (hknown : known source id login = true) (hpushed : b.logins = a.logins.push login) :
    (d.findLogin Archive.backend source id).outcome b =
      (some <$> d.logins.attach Archive.backend login [accountsName]).outcome b := by
  have hfind : b.logins.records.find? (known source id) = some login := by
    rw [hpushed, Collection.records_push, List.find?_append, hnone, Option.none_or,
      List.find?_cons_of_pos hknown]
  rw [outcome_findLogin hd, hfind]

/-! ## Signing up -/

/-- The account of a sign-up is among the accounts then, and they are in order if they were. -/
theorem accounts_of_findOrAdd {email : String} {taken : Record} {u : Archive}
    (h : (d.findOrAdd Archive.backend account email).outcome a = (.ok taken, u))
    (hstamp : ¬ d.accounts.resource.IsStamp d.accounts.resource.keys.primaryKey)
    (hsound : a.accounts.Sound d.accounts.resource.keys)
    (htexts : ∀ r ∈ a.accounts.records, ∃ key, d.accounts.resource.keys.keyOf r = .string key)
    (hkey : (d.accounts.resource.keys.keyOf account).isNull = true ∨
      ∃ key, d.accounts.resource.keys.keyOf account = .string key) :
    taken ∈ u.accounts.records ∧ u.accounts.Sound d.accounts.resource.keys ∧
      (∀ r ∈ u.accounts.records, ∃ key, d.accounts.resource.keys.keyOf r = .string key) ∧
      u.logins = a.logins ∧
      match a.accounts.records.find? (lists email) with
      | some found => taken = found ∧ u.accounts = a.accounts
      | none => u.accounts = a.accounts.push taken := by
  rw [outcome_findOrAdd hd] at h
  cases hfind : a.accounts.records.find? (lists email) with
  | some found =>
      rw [hfind] at h
      cases h
      exact ⟨List.mem_of_find?_eq_some hfind, hsound, htexts, rfl, rfl, rfl⟩
  | none =>
      rw [hfind] at h
      obtain ⟨hown, hothers, -⟩ := Steward.added_of_add hd.accountsComplete h
      have hstill := Steward.sound_of_add hd.accountsComplete h
      have htext := Steward.text_key_of_add hd.accountsComplete h hstamp hkey
      rw [hd.accounts] at hown hothers hstill
      have hpushed : u.accounts = a.accounts.push taken := hown
      refine ⟨?_, hstill hsound, ?_, hothers loginsName (by decide), hpushed⟩
      · rw [hpushed, Collection.records_push]
        exact List.mem_append_right _ (List.mem_singleton_self _)
      · rw [hpushed, Collection.records_push]
        exact List.forall_mem_append.mpr
          ⟨htexts, List.forall_mem_singleton.mpr htext⟩

end Placed

/-- The fields that a directory goes by do not get into each other's way, and accounts are
looked up by a field of that name. -/
structure FieldsApart (accounts logins : Resource) : Prop where
  plain : accounts.keys.Plain
  accounts : (accounts.keys.primaryKey :: accounts.stampNames).Nodup
  logins : (logins.fieldOf (Resource.keyParam accountsName) :: "authSource" :: "authId" ::
    logins.keys.primaryKey :: logins.stampNames).Nodup

namespace FieldsApart

variable {accounts logins : Resource} (h : FieldsApart accounts logins)

include h

theorem not_isStamp_key : ¬ accounts.IsStamp accounts.keys.primaryKey := by
  rw [Resource.isStamp_iff]
  exact (List.nodup_cons.mp h.accounts).1

/-- What is stored with the key of an account holds it, and is known by what it was known by. -/
theorem stored_login {time key source id : String} {login stored : Record}
    (hstores : logins.Stores time
      (login.insert (logins.fieldOf (Resource.keyParam accountsName)) (.string key)) stored)
    (hsource : login.get? "authSource" = some (.string source))
    (hid : login.get? "authId" = some (.string id)) :
    stored.get? (logins.fieldOf (Resource.keyParam accountsName)) = some (.string key) ∧
      known source id stored = true := by
  have hfields := h.logins
  simp only [List.nodup_cons, List.mem_cons, not_or] at hfields
  obtain ⟨⟨hlinkSource, hlinkId, -, hlinkStamp⟩, ⟨-, -, hsourceStamp⟩, ⟨-, hidStamp⟩, -⟩ := hfields
  rw [← Resource.isStamp_iff] at hlinkStamp hsourceStamp hidStamp
  have hlink := hstores.get?_of_given hlinkStamp
    (by rw [Record.get?_insert, if_pos rfl]) (show (Json.string key).isNull = false from rfl)
  have hsource := hstores.get?_of_given hsourceStamp
    (by rw [Record.get?_insert, if_neg (Ne.symm hlinkSource), hsource])
    (show (Json.string source).isNull = false from rfl)
  have hid := hstores.get?_of_given hidStamp
    (by rw [Record.get?_insert, if_neg (Ne.symm hlinkId), hid])
    (show (Json.string id).isNull = false from rfl)
  refine ⟨hlink, ?_⟩
  rw [known, hsource, hid]
  simp [Json.equalField, Json.equalScalar, Json.same]

end FieldsApart

/-- The directory of a service whose ways to log in belong to the accounts. -/
structure Joined (t : Forest) (d : Directory DocumentStore) : Prop extends Placed t d where
  parent : d.logins.parent = some ⟨accountsName,
    d.logins.resource.fieldOf (Resource.keyParam accountsName), .ofResource d.accounts.resource⟩

section Service

variable {config : Config} {t : Forest} {s u : Service Archive DocumentStore}
  {d : Directory DocumentStore}
  (hd : (Directory.ofService Archive.backend).outcome s = (.ok d, u))

include hd

/-- The stewards of a directory are asked for one after the other. -/
theorem asked_of_service {I : Service Archive DocumentStore → Prop} (hs : I s)
    (hasked : ∀ s name, I s → I ((Service.steward Archive.backend name).outcome s).2) :
    ∃ v, I v ∧ (Service.steward Archive.backend loginsName).outcome v = (.ok d.logins, u) ∧
      I u := by
  obtain ⟨accounts, v, haccounts, hd⟩ := Attempt.outcome_bind_eq_ok.mp hd
  obtain ⟨logins, w, hlogins, hd⟩ := Attempt.outcome_bind_eq_ok.mp hd
  cases hd
  have hv := hasked s accountsName hs
  rw [haccounts] at hv
  have hu := hasked v loginsName hv
  rw [hlogins] at hu
  exact ⟨v, hv, hlogins, hu⟩

theorem joined_of_service (hc : Forest.ofConfig config = .ok t)
    (hs : Service.InUse Archive.backend t s)
    (hparent : d.logins.resource.parent = some accountsName) :
    Joined t d ∧ u.stores.lookup accountsName = some (.ofResource d.accounts.resource) := by
  have hlinked := Forest.linked_of_ofConfig hc
  have hplaced := placed_of_service hc hs hd
  obtain ⟨v, hv, hlogins, hu⟩ := asked_of_service hd hs fun _ name h => h.steward name
  rw [← hplaced.logins] at hlogins
  obtain ⟨-, -, hjoint⟩ := Service.kept_of_steward hlinked (Service.orderly_of_inUse hlinked hv)
    hplaced.loginsComplete.placed hlogins
  obtain ⟨store, hstore, hlink⟩ := hjoint.above accountsName hparent
  obtain ⟨accounts, known, rfl⟩ :=
    (Service.kept_of_inUse Archive.backend_makes hlinked.sound hu).store accountsName store hstore
  obtain rfl := hplaced.accountsComplete.resource_eq hplaced.accounts known
  exact ⟨{ hplaced with parent := hlink }, hstore⟩

end Service

/-- Whoever signs up as a source knows them by an identifier under which nobody was known is
found under it from then on, with the account that the sign-up came to. That is the first account
with the first of the addresses, and then the accounts stay as they are, or the only new one.
Its key is in the way to log in. -/
theorem signed_up_found {config : Config} {t : Forest} (hc : Forest.ofConfig config = .ok t)
    {accounts logins : Resource} (haccounts : t.get? accountsName = some accounts)
    (hlogins : t.get? loginsName = some logins) (hparent : logins.parent = some accountsName)
    (hapart : FieldsApart accounts logins) {s u : Service Archive DocumentStore}
    (hs : Service.Reached t s) {d : Directory DocumentStore}
    (hd : (Directory.ofService Archive.backend).outcome s = (.ok d, u))
    (htexts : ∀ r ∈ u.state.accounts.records, ∃ key, accounts.keys.keyOf r = .string key)
    {source id : String}
    (hnone : ((d.findLogin Archive.backend source id).outcome u.state).1 = .ok none)
    {account login : Record}
    (haccount : (accounts.keys.keyOf account).isNull = true ∨
      ∃ key, accounts.keys.keyOf account = .string key)
    (hsource : login.get? "authSource" = some (.string source))
    (hid : login.get? "authId" = some (.string id)) {done : SignUp} {b : Archive}
    (hdone : (d.signUp Archive.backend account login).outcome u.state = (.ok done, b)) :
    (∃ key, done.account.get? accounts.keys.primaryKey = some (.string key) ∧
      done.login.get? (logins.fieldOf (Resource.keyParam accountsName)) = some (.string key)) ∧
    (∃ email, firstEmail? account = some email ∧
      match u.state.accounts.records.find? (lists email) with
      | some found => done.account = found ∧ b.accounts = u.state.accounts
      | none => b.accounts = u.state.accounts.push done.account) ∧
    (d.findLogin Archive.backend source id).outcome b =
      (.ok (some (done.login.insert accountsName (.object done.account.fields))), b) := by
  have hlinked := Forest.linked_of_ofConfig hc
  have hinUse := hs.inUse hlinked.sound
  have hplaced := placed_of_service hc hinUse hd
  obtain rfl := hplaced.accountsComplete.resource_eq hplaced.accounts haccounts
  obtain rfl := hplaced.loginsComplete.resource_eq hplaced.logins hlogins
  obtain ⟨hjoined, hstore⟩ := joined_of_service hd hc hinUse hparent
  obtain ⟨-, -, -, hu⟩ := asked_of_service hd hs fun s name h => h.asked (.steward name)
  have hsound : u.state.accounts.Sound d.accounts.resource.keys := by
    have hsound := hu.sound_of_kept hlinked hplaced.accountsComplete.placed
      (hplaced.accounts.symm ▸ hstore)
    rwa [hplaced.accounts] at hsound
  have hlink : d.accountLink = d.logins.resource.fieldOf (Resource.keyParam accountsName) := by
    rw [accountLink, Steward.ownerField, hjoined.parent]
    rfl
  obtain ⟨email, v, key, hemail, htaken, hkey, hadd⟩ := signUp_steps hplaced hdone
  obtain ⟨hmem, hsound, htexts, hvlogins, hvaccounts⟩ :=
    accounts_of_findOrAdd hplaced htaken hapart.not_isStamp_key hsound htexts haccount
  obtain ⟨text, htext⟩ := htexts _ hmem
  obtain rfl : key = .string text := by
    rw [KeyPolicy.keyOf, hkey] at htext
    exact htext
  obtain ⟨hown, hothers, hstores⟩ := Steward.added_of_add hplaced.loginsComplete hadd
  rw [hplaced.logins] at hown hothers
  have hbaccounts : b.accounts = v.accounts := hothers accountsName (by decide)
  have hblogins : b.logins = u.state.logins.push done.login := hvlogins ▸ hown
  rw [hlink] at hstores
  obtain ⟨hheld, hknown⟩ := hapart.stored_login hstores hsource hid
  refine ⟨⟨text, hkey, hheld⟩, ⟨email, hemail, hbaccounts ▸ hvaccounts⟩, ?_⟩
  have hfound := Collection.find?_key hsound htexts hmem
  rw [htext, ← hbaccounts, Archive.accounts, ← hplaced.accounts] at hfound
  rw [outcome_findLogin_of_push hplaced (find?_known_of_findLogin hplaced hnone) hknown hblogins]
  simp only [Attempt.outcome_map, outcome_attach_account hjoined.parent hapart.plain hheld hfound]
  rfl

def clubOfAnn : Service Archive DocumentStore :=
  let asked := (Service.Ask.steward accountsName).after Archive.backend clubService
  { asked with state := (((Duty.add (member "ann" ["ann@x.net"])).perform Archive.backend
      clubDirectory.accounts).outcome asked.state).2 }

theorem reached_clubOfAnn : Service.Reached clubTree clubOfAnn := by
  let asked := (Service.Ask.steward accountsName).after Archive.backend clubService
  have hasked : Service.Reached clubTree asked :=
    (Service.Reached.inMemory clubStart.supply).asked (.steward accountsName)
  have hkept : asked.stewards.lookup accountsName = some clubDirectory.accounts := rfl
  exact hasked.performed hkept _

def foreignLogin : Record := .ofList [("authSource", .string "google"), ("authId", .string "g-1")]

/-- Ann signs up with what somebody else knows her by, and is found by it. -/
theorem signed_up_found_ann :
    Forest.ofConfig club = .ok clubTree ∧
    FieldsApart clubDirectory.accounts.resource clubDirectory.logins.resource ∧
    Service.Reached clubTree clubOfAnn ∧
    ∃ u done b, (Directory.ofService Archive.backend).outcome clubOfAnn = (.ok clubDirectory, u) ∧
      (clubDirectory.signUp Archive.backend (member "eve" ["ann@x.net"]) foreignLogin).outcome
        u.state = (.ok done, b) ∧
      done.account.get? "uuid" = some (.string "ann") ∧ b.accounts = u.state.accounts ∧
      (clubDirectory.findLogin Archive.backend "google" "g-1").outcome b =
        (.ok (some (done.login.insert "accounts" (.object done.account.fields))), b) := by
  have hapart : FieldsApart clubDirectory.accounts.resource clubDirectory.logins.resource :=
    ⟨⟨by decide, by decide, by decide⟩, by decide, by decide⟩
  let u := ((Directory.ofService Archive.backend).outcome clubOfAnn).2
  have hd : (Directory.ofService Archive.backend).outcome clubOfAnn = (.ok clubDirectory, u) := rfl
  have hann : u.state.accounts.records = [member "ann" ["ann@x.net"]] := rfl
  have hnone : ((clubDirectory.findLogin Archive.backend "google" "g-1").outcome u.state).1 =
      .ok none := rfl
  have hlisted : u.state.accounts.records.find? (lists "ann@x.net") =
      some (member "ann" ["ann@x.net"]) := rfl
  have hsigned : ((clubDirectory.signUp Archive.backend (member "eve" ["ann@x.net"])
      foreignLogin).outcome u.state).1.isOk = true := by decide +kernel
  rcases hdone : (clubDirectory.signUp Archive.backend (member "eve" ["ann@x.net"])
      foreignLogin).outcome u.state with ⟨f | done, b⟩ <;> rw [hdone] at hsigned
  · cases hsigned
  have htexts : ∀ r ∈ u.state.accounts.records, ∃ key,
      clubDirectory.accounts.resource.keys.keyOf r = .string key := by
    rw [hann]
    exact List.forall_mem_singleton.mpr ⟨"ann", rfl⟩
  have haccounts : clubTree.get? accountsName = some clubDirectory.accounts.resource := rfl
  have hlogins : clubTree.get? loginsName = some clubDirectory.logins.resource := rfl
  obtain ⟨-, ⟨email, hemail, hkept⟩, hfound⟩ :=
    signed_up_found club_tree haccounts hlogins rfl hapart reached_clubOfAnn hd htexts hnone
      (.inr ⟨"eve", rfl⟩) rfl rfl hdone
  obtain rfl : "ann@x.net" = email := Option.some.inj ((rfl : some "ann@x.net" = _).trans hemail)
  rw [hlisted] at hkept
  refine ⟨club_tree, hapart, reached_clubOfAnn, u, done, b, hd, hdone, ?_, hkept.2, hfound⟩
  rw [hkept.1]
  rfl

end Directory

end Grove
