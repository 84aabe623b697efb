import Mathlib.Data.List.Pairwise
import Grove.Proofs.Document.Durable
import Grove.Proofs.Json.Equality

/-!
# Collections in order

What makes a collection a collection of records is more than that it is a list. Its rows
stand in the order of their numbers, the next number is above them all, and every row has a
key that no other row has (`Collection.Sound`). Adding keeps this by looking for the key
first and by taking a number that was never used since the collection was opened; a change
keeps it because it takes the key out of what is to be changed; a removal takes rows away and
adds none; and a restart counts on from the last row, so that a number can come back only
when no row has it.

All this has to hold of the table as well, since that is what a restart begins with. So the
invariant is said of what is held under a name (`Holding.Sound`), and `Archive.Reached`
collects the ways in which an archive comes about: stores are opened, commands succeed or
fail, the database refuses to write for a while, and the process starts again.
-/

namespace Grove

/-- The rows are numbered in their order, and each has a key of its own. -/
structure Collection.Sound (c : Collection) (keys : KeyPolicy) : Prop where
  numbered : c.Numbered
  keyed : ∀ r ∈ c.records, (keys.keyOf r).isNull = false
  distinct : c.records.Pairwise fun r later => (keys.keyOf r).same (keys.keyOf later) = false

/-- The collection is sound and the table, if there is one, is its text. -/
structure Holding.Sound (h : Holding) (keys : KeyPolicy) : Prop where
  collection : h.collection.Sound keys
  ledger : ∀ j, h.ledger = some j → j = h.collection.rows.map Ledger.written

/-- The archives that come about when stores are opened and used. -/
inductive Archive.Reached (stores : List DocumentStore) : Archive → Prop
  | inMemory (supply : Supply) : Reached stores (inMemory stores supply)
  | onDatabase (supply : Supply) : Reached stores (onDatabase stores supply)
  | performed {a : Archive} (h : Reached stores a) {s : DocumentStore} (hs : s ∈ stores)
      (command : Command) : Reached stores ((command.perform backend s).outcome a).2
  /-- The database begins to refuse what is written, or takes it again. -/
  | refusing {a : Archive} (h : Reached stores a) {d : Database} (hd : a.database = some d)
      (reason : Option String) :
      Reached stores { a with database := some { d with refusal := reason } }
  /-- The process starts again and reads the records as they were written. -/
  | reopened {a b : Archive} (h : Reached stores a)
      (hread : ∀ s ∈ stores, ∀ r ∈ (a.collection s.collection).records, r.ReadsBack)
      (hopen : (reopen stores).outcome a = (.ok (), b)) : Reached stores b

/-- The archive after commands to one store, of which some may fail. -/
def Archive.performAll (s : DocumentStore) (commands : List Command) (a : Archive) : Archive :=
  commands.foldl (fun a command => ((command.perform backend s).outcome a).2) a

theorem Archive.Reached.performAll {stores : List DocumentStore} {s : DocumentStore} {a : Archive}
    (h : Reached stores a) (hs : s ∈ stores) (commands : List Command) :
    Reached stores (a.performAll s commands) := by
  induction commands generalizing a with
  | nil => exact h
  | cons command commands ih => exact ih (h.performed hs command)

def Archive.Sound (stores : List DocumentStore) (a : Archive) : Prop :=
  ∀ s ∈ stores, (a.holding s.collection).Sound s.keys

namespace Collection

variable {c : Collection} {keys : KeyPolicy}

theorem sound_empty (keys : KeyPolicy) : ({} : Collection).Sound keys :=
  ⟨numbered_empty, nofun, List.Pairwise.nil⟩

/-- Soundness is a matter of the numbers and of the records in their order. -/
theorem Sound.of_records {d : Collection} (h : c.Sound keys) (hrecords : d.records = c.records)
    (hnumbered : d.Numbered) : d.Sound keys :=
  ⟨hnumbered, hrecords ▸ h.keyed, hrecords ▸ h.distinct⟩

/-- In a sound collection a key is the key of one row. -/
theorem Sound.eq_of_same (h : c.Sound keys) {row other : Nat × Record} (hrow : row ∈ c.rows)
    (hother : other ∈ c.rows) (hsame : (keys.keyOf row.2).same (keys.keyOf other.2) = true) :
    row = other := by
  have hdistinct : c.rows.Pairwise fun row later =>
      (keys.keyOf row.2).same (keys.keyOf later.2) = false := List.pairwise_map.mp h.distinct
  have hsymm : Std.Symm fun row later : Nat × Record =>
      (keys.keyOf row.2).same (keys.keyOf later.2) = false :=
    ⟨fun _ _ hrow => (Json.same_comm _ _).trans hrow⟩
  by_contra hne
  have hfalse := hdistinct.forall hrow hother hne
  rw [hsame] at hfalse
  cases hfalse

theorem same_eq_false_of_hasKey {r held : Record}
    (hkey : c.hasKey keys.primaryKey (keys.keyOf r) = false)
    (hnull : (keys.keyOf r).isNull = false) (hheld : held ∈ c.records) :
    (keys.keyOf held).same (keys.keyOf r) = false := by
  rw [hasKey, List.any_eq_false] at hkey
  have hnone := hkey held hheld
  rw [KeyPolicy.keyOf]
  cases hget : held.get? keys.primaryKey with
  | some key => simpa [hget] using hnone
  | none =>
      -- a record without the field has the key null, which is not the key of the new record
      cases hr : keys.keyOf r <;> simp_all [Json.same, Json.isNull]

theorem Sound.push {r : Record} (h : c.Sound keys) (hnull : (keys.keyOf r).isNull = false)
    (hkey : c.hasKey keys.primaryKey (keys.keyOf r) = false) : (c.push r).Sound keys where
  numbered := h.numbered.push r
  keyed := by
    rw [records_push]
    intro held hheld
    rcases List.mem_append.mp hheld with hheld | hheld
    · exact h.keyed held hheld
    · rw [List.mem_singleton.mp hheld]
      exact hnull
  distinct := by
    rw [records_push]
    refine List.pairwise_append.mpr ⟨h.distinct, List.pairwise_singleton _ _, ?_⟩
    intro held hheld new hnew
    rw [List.mem_singleton.mp hnew]
    exact same_eq_false_of_hasKey hkey hnull hheld

theorem Sound.remove (h : c.Sound keys) (m : Matcher) : (c.remove m).Sound keys where
  numbered := h.numbered.remove m
  keyed r hr := h.keyed r (List.mem_of_mem_filter (records_remove c m ▸ hr))
  distinct := by
    rw [records_remove]
    exact h.distinct.sublist List.filter_sublist

end Collection

/-! ## Changes -/

/-- Changes leave every field alone that they do not name. -/
theorem Record.get?_update {changes : Record} {name : String} (h : changes.get? name = none)
    (r : Record) : (r.update changes).get? name = r.get? name := by
  obtain ⟨fields⟩ := changes
  simp only [update, get?] at h ⊢
  induction fields generalizing r with
  | nil => rfl
  | cons field fields ih =>
      rw [lookup_cons_ite] at h
      split at h
      · cases h
      · next hname =>
          rw [List.foldl_cons, ih _ h]
          exact (get?_insert r field.1 field.2 name).trans (if_neg hname)

/-- What a change without its key leaves of a record: the key and the fields not named. -/
theorem KeyPolicy.get?_update_withoutKey (keys : KeyPolicy) (r changes : Record) :
    (r.update (keys.withoutKey changes)).get? keys.primaryKey = r.get? keys.primaryKey ∧
      ∀ name, changes.get? name = none →
        (r.update (keys.withoutKey changes)).get? name = r.get? name := by
  refine ⟨Record.get?_update ?_ r, fun name hname => Record.get?_update ?_ r⟩
  · rw [withoutKey, Record.get?_erase, if_pos rfl]
  · rw [withoutKey, Record.get?_erase, hname, ite_self]

theorem KeyPolicy.keyOf_update (keys : KeyPolicy) (r changes : Record) :
    keys.keyOf (r.update (keys.withoutKey changes)) = keys.keyOf r := by
  rw [keyOf, keyOf, (keys.get?_update_withoutKey r changes).1]

namespace Collection

variable {c : Collection} {keys : KeyPolicy}

theorem map_keyOf_update (c : Collection) (keys : KeyPolicy) (m : Matcher) (changes : Record) :
    (c.update m (keys.withoutKey changes)).records.map keys.keyOf = c.records.map keys.keyOf := by
  rw [records_update, List.map_map]
  refine List.map_congr_left fun r _ => ?_
  simp only [Function.comp_apply]
  split
  · exact keys.keyOf_update r changes
  · rfl

theorem Sound.update (h : c.Sound keys) (m : Matcher) (changes : Record) :
    (c.update m (keys.withoutKey changes)).Sound keys := by
  have hkeys := c.map_keyOf_update keys m changes
  refine ⟨h.numbered.update m _, ?_, ?_⟩
  · have hkeyed : ∀ key ∈ c.records.map keys.keyOf, key.isNull = false :=
      List.forall_mem_map.mpr h.keyed
    exact List.forall_mem_map.mp (hkeys ▸ hkeyed)
  · have hdistinct : (c.records.map keys.keyOf).Pairwise fun key later => key.same later = false :=
      List.pairwise_map.mpr h.distinct
    exact List.pairwise_map.mp (hkeys ▸ hdistinct)

end Collection

/-- What is left of a row when the records that match are changed. -/
structure KeyPolicy.Keeps (keys : KeyPolicy) (m : Matcher) (changes : Record)
    (row changed : Nat × Record) : Prop where
  number : changed.1 = row.1
  key : changed.2.get? keys.primaryKey = row.2.get? keys.primaryKey
  unnamed : ∀ name, changes.get? name = none → changed.2.get? name = row.2.get? name
  untouched : m.accepts row.2 = false → changed = row

theorem Collection.keeps_update (c : Collection) (keys : KeyPolicy) (m : Matcher)
    (changes : Record) :
    List.Forall₂ (keys.Keeps m changes) c.rows (c.update m (keys.withoutKey changes)).rows := by
  rw [update, List.forall₂_map_right_iff, List.forall₂_same]
  intro row _
  split
  · next haccepts =>
      obtain ⟨hkey, hunnamed⟩ := keys.get?_update_withoutKey row.2 changes
      exact ⟨rfl, hkey, hunnamed, fun hrefuses => absurd haccepts (by simp [hrefuses])⟩
  · exact ⟨rfl, rfl, fun _ _ => rfl, fun _ => rfl⟩

/-! ## Commands -/

namespace Archive

variable {stores : List DocumentStore} {a : Archive} {s : DocumentStore}

/-- Stores of one name agree on the keys, so no two of them spoil a collection for each
other. -/
def OneKey (stores : List DocumentStore) : Prop :=
  ∀ s ∈ stores, ∀ t ∈ stores, s.collection = t.collection → s.keys = t.keys

theorem oneKey_singleton (s : DocumentStore) : OneKey [s] := by
  intro u hu v hv _
  rw [List.mem_singleton.mp hu, List.mem_singleton.mp hv]

/-- Replacing what a store holds by something sound leaves all sound, and if the database
refuses nothing is replaced. -/
theorem Sound.rewrite {α : Type} (h : a.Sound stores) (hkeys : OneKey stores) (hs : s ∈ stores)
    {puts : List (Nat × Record)} {deletes : List Nat} {c : Collection} (answer : α)
    (hc : c.Sound s.keys)
    (hwritten : ((Ledger.putAll ((a.collection s.collection).rows.map Ledger.written)
      puts).deleteAll deletes) = c.rows.map Ledger.written) :
    ((s.rewrite puts deletes c answer).outcome a).2.Sound stores := by
  obtain ⟨reason, -, -, hrefused⟩ | ⟨b, -, hdone, hrewritten⟩ :=
    s.rewrite_cases a puts deletes c answer
  · rw [hrefused]
    exact h
  · rw [hdone]
    intro t ht
    by_cases hname : t.collection = s.collection
    · rw [hname, hrewritten.own, hkeys t ht s hs hname]
      refine ⟨hc, fun j hj => ?_⟩
      obtain ⟨old, hold, rfl⟩ := Option.map_eq_some_iff.mp hj
      rw [(h s hs).ledger old hold]
      exact hwritten
    · rw [hrewritten.others _ hname]
      exact h t ht

theorem Sound.supplied (h : a.Sound stores) (supply : Supply) :
    Archive.Sound stores { a with supply } := h

theorem Sound.insertNew (h : a.Sound stores) (hkeys : OneKey stores) (hs : s ∈ stores)
    {record : Record} (hnull : (s.keys.keyOf record).isNull = false) :
    ((s.insertNew record).outcome a).2.Sound stores := by
  have hsound : (a.collection s.collection).Sound s.keys := (h s hs).collection
  rw [DocumentStore.outcome_insertNew]
  simp only []
  split
  · exact h
  · next hkey =>
      refine h.rewrite hkeys hs record (hsound.push hnull (by simpa using hkey)) ?_
      rw [Ledger.deleteAll_nil]
      exact Collection.put_push hsound.numbered record

theorem Sound.add (h : a.Sound stores) (hkeys : OneKey stores) (hs : s ∈ stores)
    (record : Record) : ((s.add record).outcome a).2.Sound stores := by
  rw [DocumentStore.add_eq, Attempt.outcome_bind, DocumentStore.outcome_complete]
  by_cases hkey : (s.keys.keyOf record).isNull = false
  · rw [if_pos hkey]
    exact h.insertNew hkeys hs hkey
  · rw [if_neg hkey]
    by_cases hassigns : s.keys.assigns = false
    · rw [if_pos hassigns]
      exact h
    · rw [if_neg hassigns]
      refine (h.supplied _).insertNew hkeys hs ?_
      rw [KeyPolicy.keyOf, Record.get?_insert, if_pos rfl]
      rfl

theorem Sound.update (h : a.Sound stores) (hkeys : OneKey stores) (hs : s ∈ stores)
    (criteria : Option Criteria) (changes : Record) :
    ((s.update criteria changes).outcome a).2.Sound stores := by
  have hsound : (a.collection s.collection).Sound s.keys := (h s hs).collection
  rw [DocumentStore.outcome_update]
  cases Matcher.ofCriteria criteria with
  | error f => exact h
  | ok m =>
      refine h.rewrite hkeys hs _ (hsound.update m changes) ?_
      rw [Ledger.deleteAll_nil]
      exact Collection.put_changed hsound.numbered m _

theorem Sound.remove (h : a.Sound stores) (hkeys : OneKey stores) (hs : s ∈ stores)
    (criteria : Option Criteria) : ((s.remove criteria).outcome a).2.Sound stores := by
  have hsound : (a.collection s.collection).Sound s.keys := (h s hs).collection
  rw [DocumentStore.outcome_remove]
  cases Matcher.ofCriteria criteria with
  | error f => exact h
  | ok m =>
      exact h.rewrite hkeys hs _ (hsound.remove m) (Collection.delete_doomed hsound.numbered m)

theorem Sound.perform (h : a.Sound stores) (hkeys : OneKey stores) (hs : s ∈ stores)
    (command : Command) : ((command.perform backend s).outcome a).2.Sound stores := by
  cases command <;> rw [Command.perform, Attempt.outcome_map]
  case add record => exact h.add hkeys hs record
  case find criteria => exact (congrArg Prod.snd (s.outcome_find a criteria)).symm ▸ h
  case findByKey key => exact (congrArg Prod.snd (s.outcome_find a _)).symm ▸ h
  case query criteria options =>
    exact (congrArg Prod.snd (s.outcome_query a criteria options)).symm ▸ h
  case count criteria => exact (congrArg Prod.snd (s.outcome_count a criteria)).symm ▸ h
  case update criteria changes => exact h.update hkeys hs criteria changes
  case remove criteria => exact h.remove hkeys hs criteria
  case removeByKey key => exact h.remove hkeys hs _

/-! ## Restarts -/

theorem Sound.keeps (h : a.Sound stores) {d : Database} (hd : a.database = some d)
    (hs : s ∈ stores) (hread : ∀ r ∈ (a.collection s.collection).records, r.ReadsBack) :
    (a.restarted.holding s.collection).Keeps (a.holding s.collection) := by
  obtain ⟨hcollection, hledger⟩ := h s hs
  refine ⟨a.collection s.collection, ?_, hcollection.numbered, rfl, hread⟩
  have htable : (a.holding s.collection).ledger = some (d.ledger s.collection) := by
    rw [holding, hd, Option.map_some]
  rw [hledger _ htable] at htable
  exact htable

theorem openAll_refused {reason : String} (h : a.refusal = some reason) (s : DocumentStore)
    (stores : List DocumentStore) :
    (openAll (s :: stores)).outcome a = (.error (Database.storageFailure reason), a) := by
  cases hd : a.database with
  | none => simp [refusal, hd] at h
  | some d =>
      have hrefusal : d.refusal = some reason := by simpa [refusal, hd] using h
      have hopen : (DocumentStore.opened s.collection s.keys).outcome a =
          (.error (Database.storageFailure reason), a) := by
        rw [DocumentStore.outcome_opened, hd]
        simp only [Database.prepare, hrefusal]
      rw [openAll, Attempt.outcome_bind, hopen]

theorem Sound.reopened {b : Archive} (h : a.Sound stores)
    (hread : ∀ s ∈ stores, ∀ r ∈ (a.collection s.collection).records, r.ReadsBack)
    (hopen : (reopen stores).outcome a = (.ok (), b)) : b.Sound stores := by
  have hall : (openAll stores).outcome a.restarted = (.ok (), b) := by
    rw [reopen, Attempt.outcome_bind] at hopen
    exact hopen
  cases hd : a.database with
  | none =>
      obtain ⟨c, hopened, hdatabase, -, hempty⟩ :=
        openAll_inMemory stores (a := a.restarted) hd fun _ => rfl
      obtain rfl : c = b := (Prod.mk.inj (hopened.symm.trans hall)).2
      intro s _
      rw [holding, hempty, hdatabase]
      exact ⟨Collection.sound_empty s.keys, fun _ hj => by cases hj⟩
  | some d =>
      cases hrefusal : d.refusal with
      | some reason =>
          cases stores with
          | nil =>
              intro s hs
              cases hs
          | cons s stores =>
              have hrefused : a.restarted.refusal = some reason := by
                rw [refusal, restarted, hd]
                exact hrefusal
              rw [openAll_refused hrefused s stores] at hall
              cases hall
      | none =>
          have hwritable : a.restarted.refusal = none := by
            rw [refusal, restarted, hd]
            exact hrefusal
          obtain ⟨c, hopened, -, -, hmirrors, -⟩ := openAll_keeps a.restarted a hwritable
            fun s hs => h.keeps hd hs (hread s hs)
          obtain rfl : c = b := (Prod.mk.inj (hopened.symm.trans hall)).2
          intro s hs
          obtain ⟨hrecords, hnumbered, hledger⟩ := hmirrors s hs
          refine ⟨(h s hs).collection.of_records hrecords hnumbered, fun j hj => ?_⟩
          rw [hledger] at hj
          exact (Option.some.inj hj).symm

/-! ## Runs -/

theorem sound_opened (stores : List DocumentStore) (supply : Supply) :
    (inMemory stores supply).Sound stores ∧ (onDatabase stores supply).Sound stores := by
  obtain ⟨memory, hmemory, hdatabase, -, hempty⟩ :=
    openAll_inMemory stores (a := { supply }) rfl fun _ => rfl
  have hsound : memory.Sound stores := by
    intro s _
    rw [holding, hempty, hdatabase]
    exact ⟨Collection.sound_empty s.keys, fun _ hj => by cases hj⟩
  have hmirrors := mirrors_opened stores supply
  rw [inMemory, hmemory] at hmirrors ⊢
  refine ⟨hsound, fun s hs => ?_⟩
  obtain ⟨hrecords, hnumbered, hledger⟩ := hmirrors.holding s hs
  refine ⟨(hsound s hs).collection.of_records hrecords hnumbered, fun j hj => ?_⟩
  rw [hledger] at hj
  exact (Option.some.inj hj).symm

/-- Whatever was done with the stores, what they hold is sound. -/
theorem sound_of_reached (hkeys : OneKey stores) (h : Reached stores a) : a.Sound stores := by
  induction h with
  | inMemory supply => exact (sound_opened stores supply).1
  | onDatabase supply => exact (sound_opened stores supply).2
  | performed _ hs command ih => exact ih.perform hkeys hs command
  | @refusing a _ d hd reason ih =>
      intro s hs
      obtain ⟨hcollection, hledger⟩ := ih s hs
      refine ⟨hcollection, fun j hj => hledger j ?_⟩
      rw [holding, hd]
      exact hj
  | reopened _ hread hopen ih => exact ih.reopened hread hopen

end Archive

/-- An update fails and changes nothing, or it counts the records that match and leaves of
every row what changes leave. -/
theorem DocumentStore.update_cases (s : DocumentStore) (a : Archive) (criteria : Option Criteria)
    (changes : Record) :
    (∃ f, (s.update criteria changes).outcome a = (.error f, a) ∧
      (Matcher.ofCriteria criteria = .error f ∨ a.refusal.isSome = true)) ∨
    ∃ m b, Matcher.ofCriteria criteria = .ok m ∧
      (s.update criteria changes).outcome a =
        (.ok ((a.collection s.collection).matching m).length, b) ∧
      List.Forall₂ (s.keys.Keeps m changes) (a.collection s.collection).rows
        (b.collection s.collection).rows := by
  rw [outcome_update]
  cases hm : Matcher.ofCriteria criteria with
  | error f => exact .inl ⟨f, rfl, .inl rfl⟩
  | ok m =>
      obtain ⟨reason, hrefusal, -, hrefused⟩ | ⟨b, -, hdone, hrewritten⟩ :=
        s.rewrite_cases a ((a.collection s.collection).changed m (s.keys.withoutKey changes)) []
          ((a.collection s.collection).update m (s.keys.withoutKey changes))
          ((a.collection s.collection).matching m).length
      · exact .inl ⟨_, hrefused, .inr (by rw [hrefusal]; rfl)⟩
      · have hown : b.collection s.collection =
            (a.collection s.collection).update m (s.keys.withoutKey changes) :=
          congrArg Holding.collection hrewritten.own
        refine .inr ⟨m, b, rfl, hdone, ?_⟩
        rw [hown]
        exact (a.collection s.collection).keeps_update s.keys m changes

/-- Whatever was done with the stores, restarts included, the rows of each stand in the order
of their numbers below the next number, and each has a key that no other has. An update
changes neither the rows in number and order nor their keys; it leaves the fields alone that
it does not name and the rows that do not match, and it counts those that do. -/
theorem rows_sound {stores : List DocumentStore} {a : Archive} {s : DocumentStore}
    (hkeys : Archive.OneKey stores) (h : Archive.Reached stores a) (hs : s ∈ stores) :
    (a.collection s.collection).Sound s.keys ∧
    (∀ row ∈ (a.collection s.collection).rows, ∀ other ∈ (a.collection s.collection).rows,
      (s.keys.keyOf row.2).same (s.keys.keyOf other.2) = true → row = other) ∧
    ∀ criteria changes,
      (∃ f, (s.update criteria changes).outcome a = (.error f, a) ∧
        (Matcher.ofCriteria criteria = .error f ∨ a.refusal.isSome = true)) ∨
      ∃ m b, Matcher.ofCriteria criteria = .ok m ∧
        (s.update criteria changes).outcome a =
          (.ok ((a.collection s.collection).matching m).length, b) ∧
        List.Forall₂ (s.keys.Keeps m changes) (a.collection s.collection).rows
          (b.collection s.collection).rows := by
  have hsound : (a.collection s.collection).Sound s.keys :=
    (Archive.sound_of_reached hkeys h s hs).collection
  exact ⟨hsound, fun row hrow other hother => hsound.eq_of_same hrow hother,
    fun criteria changes => s.update_cases a criteria changes⟩

def hoisted : Archive :=
  (((Command.add raisedFlag).perform Archive.backend flags).outcome
    (Archive.onDatabase [flags] flagSupply)).2

def stillHoisted : Archive := ((Archive.reopen [flags]).outcome hoisted).2

theorem reached_stillHoisted : Archive.Reached [flags] stillHoisted := by
  have hraised : ∀ r ∈ [raisedFlag], r.ReadsBack :=
    List.forall_mem_singleton.mpr readsBack_raisedFlag
  have hhoisted : Archive.Reached [flags] hoisted :=
    (Archive.Reached.onDatabase flagSupply).performed (List.mem_singleton_self _) _
  exact hhoisted.reopened (List.forall_mem_singleton.mpr hraised) rfl

/-- Lowering the flag by a change of its key lowers nothing, but it counts the flag. -/
theorem rows_sound_flags :
    Archive.OneKey [flags] ∧ Archive.Reached [flags] stillHoisted ∧ flags ∈ [flags] ∧
    (stillHoisted.collection "flags").rows = [(0, raisedFlag)] ∧
    (stillHoisted.collection "flags").Sound flags.keys ∧
    ∃ m b, Matcher.ofCriteria none = .ok m ∧
      (flags.update none ⟨[("on", .bool false)]⟩).outcome stillHoisted = (.ok 1, b) ∧
      List.Forall₂ (flags.keys.Keeps m ⟨[("on", .bool false)]⟩) [(0, raisedFlag)]
        (b.collection "flags").rows := by
  have hkeys : Archive.OneKey [flags] := Archive.oneKey_singleton flags
  have hflags : flags ∈ [flags] := List.mem_singleton_self _
  have hrows : (stillHoisted.collection "flags").rows = [(0, raisedFlag)] := rfl
  have hcount : ((flags.update none ⟨[("on", .bool false)]⟩).outcome stillHoisted).1 = .ok 1 :=
    rfl
  obtain ⟨hsound, -, hupdate⟩ := rows_sound hkeys reached_stillHoisted hflags
  obtain ⟨f, hfails, -⟩ | ⟨m, b, hm, hdone, hkept⟩ := hupdate none ⟨[("on", .bool false)]⟩
  · rw [hfails] at hcount
    cases hcount
  · rw [hdone] at hcount
    have hone := Except.ok.inj hcount
    rw [hone] at hdone
    exact ⟨hkeys, reached_stillHoisted, hflags, hrows, hsound, m, b, hm, hdone, hrows ▸ hkept⟩

end Grove
