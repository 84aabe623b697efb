import Grove.Proofs.Document.Command
import Grove.Proofs.Document.Ledger

/-!
# Stores that outlive their process

A store on a database answers as a store in memory does, however often its process starts
again (`durable_refines_memory`). The two do not agree on everything: sequence numbers are
given again after a restart, so the same record can have one number here and another there.
What they agree on is the records in their order, and no answer depends on more
(`Archive.Mirrors`).

On the database's side there is one more thing to keep true, that the table is the text of
the collection. It is what makes a restart invisible: the rows that are read back are the
rows that were in memory, provided that each record is read as what was written of it.
-/

namespace Grove

namespace Archive

def openAll : List DocumentStore → Attempt Archive Unit
  | [] => return
  | s :: stores => do
    let _ ← DocumentStore.opened s.collection s.keys
    openAll stores

/-- The process ends, and the stores are opened again in a new one. -/
def reopen (stores : List DocumentStore) : Attempt Archive Unit := do
  modify restarted
  openAll stores

def inMemory (stores : List DocumentStore) (supply : Supply) : Archive :=
  ((openAll stores).outcome { supply }).2

def onDatabase (stores : List DocumentStore) (supply : Supply) : Archive :=
  ((openAll stores).outcome { supply, database := some {} }).2

end Archive

/-- On a database there are the same records, and the table is their text. -/
structure Holding.Mirrors (memory durable : Holding) : Prop where
  records : durable.collection.records = memory.collection.records
  numbered : durable.collection.Numbered
  ledger : durable.ledger = some (durable.collection.rows.map Ledger.written)

/-- A table from which the records can be had back. -/
def Holding.Keeps (durable memory : Holding) : Prop :=
  ∃ c : Collection, durable.ledger = some (c.rows.map Ledger.written) ∧ c.Numbered ∧
    c.records = memory.collection.records ∧ ∀ r ∈ c.records, r.ReadsBack

/-- Archives that no use of the stores tells apart, the second one on a database. -/
structure Archive.Mirrors (stores : List DocumentStore) (memory durable : Archive) : Prop where
  supply : memory.supply = durable.supply
  memoryWritable : memory.refusal = none
  durableWritable : durable.refusal = none
  holding : ∀ s ∈ stores,
    (memory.holding s.collection).Mirrors (durable.holding s.collection)

namespace Collection

theorem records_update (c : Collection) (m : Matcher) (changes : Record) :
    (c.update m changes).records =
      c.records.map fun r => if m.accepts r then r.update changes else r := by
  rw [update, records, records, List.map_map, List.map_map]
  refine List.map_congr_left fun row _ => ?_
  simp only [Function.comp_apply]
  split <;> rfl

section

variable {c d : Collection} (h : c.records = d.records)

include h

theorem matching_congr (m : Matcher) : c.matching m = d.matching m := by
  rw [matching, matching, h]

theorem select_congr (m : Matcher) (o : Paging) : c.select m o = d.select m o := by
  rw [select, select, matching_congr h]

theorem hasKey_congr (primaryKey : String) (key : Json) :
    c.hasKey primaryKey key = d.hasKey primaryKey key := by
  rw [hasKey, hasKey, h]

end

end Collection

namespace DocumentStore

variable {s : DocumentStore} {stores : List DocumentStore} {memory durable : Archive}

/-! ## Commands -/

/-- Changing a collection and its table alike leaves mirrors. -/
theorem rewrite_mirrored {α : Type} (hs : s ∈ stores) (h : memory.Mirrors stores durable)
    {puts putsThere : List (Nat × Record)} {deletes deletesThere : List Nat} {c d : Collection}
    (answer : α) (hrecords : d.records = c.records) (hnumbered : d.Numbered)
    (hwritten : ((Ledger.putAll ((durable.collection s.collection).rows.map Ledger.written)
      putsThere).deleteAll deletesThere) = d.rows.map Ledger.written) :
    ((s.rewrite puts deletes c answer).outcome memory).1 =
      ((s.rewrite putsThere deletesThere d answer).outcome durable).1 ∧
    Archive.Mirrors stores ((s.rewrite puts deletes c answer).outcome memory).2
      ((s.rewrite putsThere deletesThere d answer).outcome durable).2 := by
  obtain ⟨reason, hrefused, -⟩ | ⟨memory', -, hhere, hrewritten⟩ :=
    s.rewrite_cases memory puts deletes c answer
  · rw [h.memoryWritable] at hrefused
    cases hrefused
  obtain ⟨reason, hrefused, -⟩ | ⟨durable', -, hthere, hrewrittenThere⟩ :=
    s.rewrite_cases durable putsThere deletesThere d answer
  · rw [h.durableWritable] at hrefused
    cases hrefused
  rw [hhere, hthere]
  refine ⟨rfl, ?_, ?_, ?_, fun other hother => ?_⟩
  · rw [hrewritten.supply, hrewrittenThere.supply, h.supply]
  · rw [hrewritten.refusal, h.memoryWritable]
  · rw [hrewrittenThere.refusal, h.durableWritable]
  · by_cases hname : other.collection = s.collection
    · rw [hname, hrewritten.own, hrewrittenThere.own]
      refine ⟨hrecords, hnumbered, ?_⟩
      rw [(h.holding s hs).ledger, Option.map_some]
      exact congrArg some hwritten
    · rw [hrewritten.others _ hname, hrewrittenThere.others _ hname]
      exact h.holding other hother

theorem freshKey_mirrored :
    freshKey.Respects (Archive.Mirrors stores) fun _ => True := by
  intro memory durable h
  rw [outcome_freshKey, outcome_freshKey, h.supply]
  exact ⟨rfl, ⟨rfl, h.memoryWritable, h.durableWritable, h.holding⟩, fun _ _ => trivial⟩

variable (hs : s ∈ stores)

include hs

theorem records_mirrored (h : memory.Mirrors stores durable) :
    (durable.collection s.collection).records = (memory.collection s.collection).records :=
  (h.holding s hs).records

theorem add_mirrored (record : Record) :
    (s.add record).Respects (Archive.Mirrors stores) fun _ => True := by
  rw [add_eq]
  refine (KeyPolicy.complete_respects freshKey_mirrored s.keys record).bind fun record _ => ?_
  intro memory durable h
  have hrecords := records_mirrored hs h
  rw [outcome_insertNew, outcome_insertNew]
  simp only [Collection.hasKey_congr hrecords]
  split
  · exact ⟨rfl, h, nofun⟩
  · have hnumbered := (h.holding s hs).numbered
    refine and_assoc.mp
      ⟨rewrite_mirrored hs h record ?_ (hnumbered.push record) ?_, fun _ _ => trivial⟩
    · rw [Collection.records_push, Collection.records_push, hrecords]
    · rw [Ledger.deleteAll_nil]
      exact Collection.put_push hnumbered record

theorem find_mirrored (criteria : Option Criteria) :
    (s.find criteria).Respects (Archive.Mirrors stores) fun _ => True := by
  intro memory durable h
  rw [outcome_find, outcome_find, records_mirrored hs h]
  exact ⟨rfl, h, fun _ _ => trivial⟩

theorem query_mirrored (criteria : Option Criteria) (options : Paging) :
    (s.query criteria options).Respects (Archive.Mirrors stores) fun _ => True := by
  intro memory durable h
  rw [outcome_query, outcome_query]
  simp only [Collection.select_congr (records_mirrored hs h)]
  exact ⟨trivial, h, fun _ _ => trivial⟩

theorem count_mirrored (criteria : Option Criteria) :
    (s.count criteria).Respects (Archive.Mirrors stores) fun _ => True := by
  intro memory durable h
  rw [outcome_count, outcome_count]
  simp only [Collection.matching_congr (records_mirrored hs h)]
  exact ⟨trivial, h, fun _ _ => trivial⟩

theorem update_mirrored (criteria : Option Criteria) (changes : Record) :
    (s.update criteria changes).Respects (Archive.Mirrors stores) fun _ => True := by
  intro memory durable h
  have hrecords := records_mirrored hs h
  rw [outcome_update, outcome_update]
  cases Matcher.ofCriteria criteria with
  | error f => exact ⟨rfl, h, nofun⟩
  | ok m =>
      have hnumbered := (h.holding s hs).numbered
      simp only [Collection.matching_congr hrecords]
      refine and_assoc.mp
        ⟨rewrite_mirrored hs h _ ?_ (hnumbered.update m _) ?_, fun _ _ => trivial⟩
      · rw [Collection.records_update, Collection.records_update, hrecords]
      · rw [Ledger.deleteAll_nil]
        exact Collection.put_changed hnumbered m _

theorem remove_mirrored (criteria : Option Criteria) :
    (s.remove criteria).Respects (Archive.Mirrors stores) fun _ => True := by
  intro memory durable h
  have hrecords := records_mirrored hs h
  rw [outcome_remove, outcome_remove]
  cases Matcher.ofCriteria criteria with
  | error f => exact ⟨rfl, h, nofun⟩
  | ok m =>
      have hnumbered := (h.holding s hs).numbered
      simp only [Collection.matching_congr hrecords]
      refine and_assoc.mp ⟨rewrite_mirrored hs h _ ?_ (hnumbered.remove m)
        (Collection.delete_doomed hnumbered m), fun _ _ => trivial⟩
      rw [Collection.records_remove, Collection.records_remove, hrecords]

theorem perform_mirrored (command : Command) :
    (command.perform Archive.backend s).Respects (Archive.Mirrors stores) fun _ => True := by
  cases command with
  | add record => exact (add_mirrored hs record).map
  | find criteria => exact (find_mirrored hs criteria).map
  | findByKey key => exact (find_mirrored hs _).map
  | query criteria options => exact (query_mirrored hs criteria options).map
  | count criteria => exact (count_mirrored hs criteria).map
  | update criteria changes => exact (update_mirrored hs criteria changes).map
  | remove criteria => exact (remove_mirrored hs criteria).map
  | removeByKey key => exact (remove_mirrored hs _).map

end DocumentStore

/-! ## Starting again -/

/-- What mirrors now can be had back after a restart. -/
theorem Holding.Mirrors.keeps {memory durable : Holding} (h : memory.Mirrors durable)
    (hread : ∀ r ∈ memory.collection.records, r.ReadsBack) : durable.Keeps memory :=
  ⟨durable.collection, h.ledger, h.numbered, h.records, by rw [h.records]; exact hread⟩

namespace DocumentStore

/-- Opening a collection whose table can be read puts the rows of the table in place. -/
theorem opened_written {name : String} (keys : KeyPolicy) {a : Archive} {c : Collection}
    (hwritable : a.refusal = none)
    (hledger : (a.holding name).ledger = some (c.rows.map Ledger.written))
    (hread : ∀ r ∈ c.records, r.ReadsBack) :
    ∃ b, (opened name keys).outcome a = (.ok ⟨name, keys⟩, b) ∧
      a.Rewritten b name (.ofRows c.rows) [] [] := by
  cases hd : a.database with
  | none => simp [Archive.holding, hd] at hledger
  | some d =>
      have htable : d.ledger name = c.rows.map Ledger.written := by
        simpa [Archive.holding, hd] using hledger
      have hrefusal : d.refusal = none := by simpa [Archive.refusal, hd] using hwritable
      have hrows : (d.ledger name).records? = some c.rows := by
        rw [htable]
        exact Ledger.records?_written fun row hrow => hread _ (List.mem_map_of_mem hrow)
      have hopened : (opened name keys).outcome a = (.ok ⟨name, keys⟩,
          { a.replace name (.ofRows c.rows) with
            database := some (d.replace name (d.ledger name)) }) := by
        rw [outcome_opened, hd]
        simp only [Database.prepare, hrefusal, Database.rows, Database.ledger_replace_self, hrows]
      refine ⟨_, hopened, ?_, fun other hother => ?_, rfl, ?_⟩
      · have hcollection := a.collection_replace_self name (.ofRows c.rows)
        simp only [Archive.holding, hd, Option.map_some, Database.ledger_replace_self,
          Ledger.putAll, List.foldl_nil, Ledger.deleteAll_nil]
        exact congrArg (Holding.mk · _) hcollection
      · have hcollection := a.collection_replace hother (.ofRows c.rows)
        simp only [Archive.holding, hd, Option.map_some, Database.ledger_replace_ledger]
        exact congrArg (Holding.mk · _) hcollection
      · rw [Archive.refusal, Archive.refusal, hd]
        rfl

end DocumentStore

namespace Archive

variable {stores todo : List DocumentStore} {memory durable : Archive}

/-- Opening stores that can be had back makes each a mirror and leaves other names alone. -/
theorem openAll_keeps (durable memory : Archive) (hwritable : durable.refusal = none)
    (hkeeps : ∀ s ∈ todo, (durable.holding s.collection).Keeps (memory.holding s.collection)) :
    ∃ opened, (openAll todo).outcome durable = (.ok (), opened) ∧
      opened.refusal = none ∧ opened.supply = durable.supply ∧
      (∀ s ∈ todo, (memory.holding s.collection).Mirrors (opened.holding s.collection)) ∧
      ∀ name, (∀ s ∈ todo, s.collection ≠ name) → opened.holding name = durable.holding name := by
  induction todo generalizing durable with
  | nil => exact ⟨durable, rfl, hwritable, rfl, nofun, fun _ _ => rfl⟩
  | cons s todo ih =>
      rw [List.forall_mem_cons] at hkeeps
      obtain ⟨c, hledger, hnumbered, hrecords, hread⟩ := hkeeps.1
      obtain ⟨next, hopen, hrewritten⟩ :=
        DocumentStore.opened_written s.keys hwritable hledger hread
      have hhead : (memory.holding s.collection).Mirrors (next.holding s.collection) := by
        rw [hrewritten.own, hledger]
        exact ⟨hrecords, hnumbered.reopened, by
          simp only [Option.map_some, Ledger.putAll, List.foldl_nil, Ledger.deleteAll_nil]; rfl⟩
      -- a store further down can have the name of this one, and opening it is then repeated
      have hrest : ∀ t ∈ todo,
          (next.holding t.collection).Keeps (memory.holding t.collection) := by
        intro t ht
        by_cases hname : t.collection = s.collection
        · rw [hname]
          exact hhead.keeps (hrecords ▸ hread)
        · rw [hrewritten.others _ hname]
          exact hkeeps.2 t ht
      obtain ⟨last, hall, hwritable', hsupply, hmirrors, hothers⟩ :=
        ih next (hrewritten.refusal.trans hwritable) hrest
      refine ⟨last, ?_, hwritable', hsupply.trans hrewritten.supply, ?_, ?_⟩
      · rw [openAll, Attempt.outcome_bind, hopen]
        exact hall
      · refine List.forall_mem_cons.mpr ⟨?_, hmirrors⟩
        by_cases hagain : ∃ t ∈ todo, t.collection = s.collection
        · obtain ⟨t, ht, hname⟩ := hagain
          exact hname ▸ hmirrors t ht
        · rw [hothers _ fun t ht hname => hagain ⟨t, ht, hname⟩]
          exact hhead
      · intro name hname
        rw [List.forall_mem_cons] at hname
        rw [hothers name hname.2, hrewritten.others name (Ne.symm hname.1)]

/-- A restart cannot be told on what mirrors, as long as the records can be read back. -/
theorem reopen_mirrored (h : memory.Mirrors stores durable)
    (hread : ∀ s ∈ stores, ∀ r ∈ (memory.collection s.collection).records, r.ReadsBack) :
    ∃ reopened, (reopen stores).outcome durable = (.ok (), reopened) ∧
      memory.Mirrors stores reopened := by
  have hkeeps : ∀ s ∈ stores,
      (durable.restarted.holding s.collection).Keeps (memory.holding s.collection) := by
    intro s hs
    obtain ⟨c, hledger, hkept⟩ := (h.holding s hs).keeps (hread s hs)
    exact ⟨c, hledger, hkept⟩
  obtain ⟨reopened, hopen, hwritable, hsupply, hmirrors, -⟩ :=
    openAll_keeps durable.restarted memory h.durableWritable hkeeps
  refine ⟨reopened, ?_, h.supply.trans hsupply.symm, h.memoryWritable, hwritable, hmirrors⟩
  rw [reopen, Attempt.outcome_bind]
  exact hopen

theorem openAll_inMemory (stores : List DocumentStore) {a : Archive} (hdatabase : a.database = none)
    (hempty : ∀ name, a.collection name = {}) :
    ∃ b, (openAll stores).outcome a = (.ok (), b) ∧ b.database = none ∧ b.supply = a.supply ∧
      ∀ name, b.collection name = {} := by
  induction stores generalizing a with
  | nil => exact ⟨a, rfl, hdatabase, rfl, hempty⟩
  | cons s stores ih =>
      have hopen : (DocumentStore.opened s.collection s.keys).outcome a =
          (.ok s, a.replace s.collection {}) := by
        rw [DocumentStore.outcome_opened, hdatabase]
      have hreplaced : ∀ name, (a.replace s.collection {}).collection name = {} := by
        intro name
        by_cases hname : name = s.collection
        · rw [hname, collection_replace_self]
        · rw [collection_replace a hname, hempty]
      obtain ⟨b, hall, hrest⟩ := ih (a := a.replace s.collection {}) hdatabase hreplaced
      refine ⟨b, ?_, hrest⟩
      rw [openAll, Attempt.outcome_bind, hopen]
      exact hall

/-- On the day they are opened, stores in memory and stores on a new database are empty. -/
theorem mirrors_opened (stores : List DocumentStore) (supply : Supply) :
    (inMemory stores supply).Mirrors stores (onDatabase stores supply) := by
  obtain ⟨memory, hmemory, hdatabase, hsupply, hempty⟩ :=
    openAll_inMemory stores (a := { supply }) rfl fun _ => rfl
  have hkeeps : ∀ s ∈ stores, (Archive.holding { supply, database := some {} } s.collection).Keeps
      (memory.holding s.collection) := by
    intro s _
    refine ⟨{}, rfl, Collection.numbered_empty, ?_, nofun⟩
    rw [holding, hempty]
  obtain ⟨durable, hdurable, hwritable, hsupply', hmirrors, -⟩ :=
    openAll_keeps { supply, database := some {} } memory rfl hkeeps
  rw [inMemory, onDatabase, hmemory, hdurable]
  exact ⟨hsupply.trans hsupply'.symm, by rw [refusal, hdatabase]; rfl, hwritable, hmirrors⟩

end Archive

/-! ## Runs -/

section Run

variable {stores : List DocumentStore} {memory durable : Archive}

def Event.AskedOf (stores : List DocumentStore) (events : List Event) : Prop :=
  ∀ s command, Event.command s command ∈ events → s ∈ stores

/-- The records that the stores hold at any time of the run are read as they were written. -/
def Event.ReadsBack (stores : List DocumentStore) (events : List Event) (memory : Archive) : Prop :=
  ∀ done, done <+: events → ∀ s ∈ stores,
    ∀ r ∈ ((run (pure ()) done memory).2.collection s.collection).records, r.ReadsBack

theorem Event.readsBack_nil : Event.ReadsBack stores [] memory ↔
    ∀ s ∈ stores, ∀ r ∈ (memory.collection s.collection).records, r.ReadsBack :=
  ⟨fun h => h [] List.nil_prefix, fun h _ hdone => List.prefix_nil.mp hdone ▸ h⟩

theorem Event.readsBack_cons {e : Event} {events : List Event} :
    Event.ReadsBack stores (e :: events) memory ↔
      (∀ s ∈ stores, ∀ r ∈ (memory.collection s.collection).records, r.ReadsBack) ∧
      Event.ReadsBack stores events ((e.perform (pure ())).outcome memory).2 := by
  constructor
  · intro h
    exact ⟨h [] List.nil_prefix, fun done hdone =>
      h (e :: done) ((List.prefix_cons_inj e).mpr hdone)⟩
  · rintro ⟨hnow, hlater⟩ done hdone
    obtain rfl | ⟨rest, rfl, hrest⟩ := List.prefix_cons_iff.mp hdone
    · exact hnow
    · exact hlater rest hrest

theorem Event.perform_mirrored {e : Event} (hasked : Event.AskedOf stores [e])
    (hread : ∀ s ∈ stores, ∀ r ∈ (memory.collection s.collection).records, r.ReadsBack)
    (h : memory.Mirrors stores durable) :
    ((e.perform (pure ())).outcome memory).1 =
      ((e.perform (Archive.reopen stores)).outcome durable).1 ∧
    Archive.Mirrors stores ((e.perform (pure ())).outcome memory).2
      ((e.perform (Archive.reopen stores)).outcome durable).2 := by
  cases e with
  | command s command =>
      have hs : s ∈ stores := hasked s command (List.mem_singleton_self _)
      obtain ⟨hreply, hmirrors, -⟩ :=
        (DocumentStore.perform_mirrored hs command).map (f := some) memory durable h
      exact ⟨hreply, hmirrors⟩
  | reopened =>
      obtain ⟨reopened, hopen, hmirrors⟩ := Archive.reopen_mirrored h hread
      rw [perform, perform, Attempt.outcome_map, Attempt.outcome_map, hopen]
      exact ⟨rfl, hmirrors⟩

theorem Event.run_mirrored {events : List Event} (hasked : Event.AskedOf stores events)
    (hread : Event.ReadsBack stores events memory) (h : memory.Mirrors stores durable) :
    (Event.run (pure ()) events memory).1 =
      (Event.run (Archive.reopen stores) events durable).1 ∧
    Archive.Mirrors stores (Event.run (pure ()) events memory).2
      (Event.run (Archive.reopen stores) events durable).2 := by
  induction events generalizing memory durable with
  | nil => exact ⟨rfl, h⟩
  | cons e events ih =>
      have hfirst : Event.AskedOf stores [e] := fun s command hmem =>
        hasked s command (List.mem_cons.mpr (.inl (List.mem_singleton.mp hmem)))
      have hlater : Event.AskedOf stores events := fun s command hmem =>
        hasked s command (List.mem_cons_of_mem e hmem)
      obtain ⟨hnow, hthen⟩ := Event.readsBack_cons.mp hread
      obtain ⟨hreply, hmirrors⟩ := Event.perform_mirrored hfirst hnow h
      obtain ⟨hreplies, hrest⟩ := ih hlater hthen hmirrors
      exact ⟨List.cons_eq_cons.mpr ⟨hreply, hreplies⟩, hrest⟩

end Run

/-- The rows of a mirrored store are the rows of its table. -/
theorem Holding.Mirrors.rows {memory durable : Archive} {name : String}
    (h : (memory.holding name).Mirrors (durable.holding name))
    (hread : ∀ r ∈ (memory.collection name).records, r.ReadsBack) :
    ∃ d, durable.database = some d ∧ d.rows name = .ok (durable.collection name).rows := by
  have hledger := h.ledger
  cases hd : durable.database with
  | none => simp [Archive.holding, hd] at hledger
  | some d =>
      have htable : d.ledger name = (durable.collection name).rows.map Ledger.written := by
        simpa [Archive.holding, hd] using hledger
      have hrecords : (durable.collection name).records = (memory.collection name).records :=
        h.records
      have hrows : (d.ledger name).records? = some (durable.collection name).rows := by
        rw [htable]
        exact Ledger.records?_written fun row hrow =>
          hread _ (hrecords ▸ List.mem_map_of_mem hrow)
      refine ⟨d, rfl, ?_⟩
      rw [Database.rows, hrows]

/-- Stores on a database answer whatever is asked of them as stores in memory do, failures
included, with restarts at any points, and what they have in memory is at any time what is
read from the database. What is asked of one store changes nothing that another holds. -/
theorem durable_refines_memory {stores : List DocumentStore} {events : List Event}
    (supply : Supply) (hasked : Event.AskedOf stores events)
    (hread : Event.ReadsBack stores events (Archive.inMemory stores supply)) :
    (∀ done, done <+: events →
      let memory := Event.run (pure ()) done (Archive.inMemory stores supply)
      let durable := Event.run (Archive.reopen stores) done (Archive.onDatabase stores supply)
      durable.1 = memory.1 ∧ ∀ s ∈ stores,
        (durable.2.collection s.collection).records = (memory.2.collection s.collection).records ∧
        ∃ d, durable.2.database = some d ∧
          d.rows s.collection = .ok (durable.2.collection s.collection).rows) ∧
    ∀ (s : DocumentStore) (command : Command) (a : Archive) (other : String),
      other ≠ s.collection →
      ((command.perform Archive.backend s).outcome a).2.holding other = a.holding other := by
  refine ⟨fun done hdone => ?_, fun s command a other hother =>
    DocumentStore.perform_others hother command⟩
  have haskedThen : Event.AskedOf stores done := fun s command hmem =>
    hasked s command (hdone.subset hmem)
  have hreadThen : Event.ReadsBack stores done (Archive.inMemory stores supply) :=
    fun before hbefore => hread before (hbefore.trans hdone)
  obtain ⟨hreplies, hmirrors⟩ :=
    Event.run_mirrored haskedThen hreadThen (Archive.mirrors_opened stores supply)
  refine ⟨hreplies.symm, fun s hs => ⟨(hmirrors.holding s hs).records, ?_⟩⟩
  exact (hmirrors.holding s hs).rows (hread done hdone s hs)

/-! ## An example -/

def flags : DocumentStore := ⟨"flags", { primaryKey := "on", assigns := false }⟩

def flagSupply : Supply := { randomBits := fun _ => 0, clock := fun _ => default }

def raisedFlag : Record := ⟨[("on", .bool true)]⟩

/-- A flag is raised, the process starts again, the same flag is refused and all are taken
down. -/
def flagEvents : List Event :=
  [.command flags (.add raisedFlag), .reopened, .command flags (.add raisedFlag),
    .command flags (.remove none)]

theorem readsBack_raisedFlag : raisedFlag.ReadsBack := by
  rw [Record.ReadsBack]
  rfl

theorem askedOf_flagEvents : Event.AskedOf [flags] flagEvents := by
  intro s command hmem
  simp only [flagEvents, List.mem_cons, Event.command.injEq, reduceCtorEq, List.not_mem_nil,
    or_false, false_or] at hmem
  rcases hmem with ⟨rfl, -⟩ | ⟨rfl, -⟩ | ⟨rfl, -⟩ <;> exact List.mem_singleton_self _

theorem readsBack_flagEvents :
    Event.ReadsBack [flags] flagEvents (Archive.inMemory [flags] flagSupply) := by
  have hraised : ∀ r ∈ [raisedFlag], r.ReadsBack :=
    List.forall_mem_singleton.mpr readsBack_raisedFlag
  refine Event.readsBack_cons.mpr ⟨List.forall_mem_singleton.mpr nofun, ?_⟩
  refine Event.readsBack_cons.mpr ⟨List.forall_mem_singleton.mpr hraised, ?_⟩
  refine Event.readsBack_cons.mpr ⟨List.forall_mem_singleton.mpr hraised, ?_⟩
  refine Event.readsBack_cons.mpr ⟨List.forall_mem_singleton.mpr hraised, ?_⟩
  exact Event.readsBack_nil.mpr (List.forall_mem_singleton.mpr nofun)

theorem durable_refines_memory_flags :
    Event.AskedOf [flags] flagEvents ∧
    Event.ReadsBack [flags] flagEvents (Archive.inMemory [flags] flagSupply) ∧
    (Event.run (Archive.reopen [flags]) flagEvents (Archive.onDatabase [flags] flagSupply)).1 =
      (Event.run (pure ()) flagEvents (Archive.inMemory [flags] flagSupply)).1 :=
  ⟨askedOf_flagEvents, readsBack_flagEvents,
    ((durable_refines_memory flagSupply askedOf_flagEvents readsBack_flagEvents).1
      flagEvents List.prefix_rfl).1⟩

end Grove
