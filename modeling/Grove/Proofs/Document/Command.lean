import Grove.Proofs.Document.Holding

/-!
# Commands that fail

A command is an operation of a store together with what it is given, and an event is a
command or the opening of the database after a restart. A run of events goes on after a
failure, so what a failure leaves behind is what the next event finds.

It leaves nothing behind (`unchanged_of_error`): the records, their order, the number that
the next record gets and the tables are what they were. Each operation looks for what is
wrong before it changes anything, and what it writes to the database is written in one
transaction, which comes before the change in memory. The one thing that can be gone is a
key that was drawn for a record which then was not added.
-/

namespace Grove

inductive Command where
  | add (record : Record)
  | find (criteria : Option Criteria)
  | findByKey (key : Json)
  | query (criteria : Option Criteria) (options : Paging)
  | count (criteria : Option Criteria)
  | update (criteria : Option Criteria) (changes : Record)
  | remove (criteria : Option Criteria)
  | removeByKey (key : Json)

inductive Reply where
  | record (r : Record)
  | found (r : Option Record)
  | records (rs : List Record)
  | number (n : Nat)

def Command.perform {σ ρ : Type} (b : Backend σ ρ) (store : ρ) : Command → Attempt σ Reply
  | add record => Reply.record <$> b.add store record
  | find criteria => Reply.found <$> b.find store criteria
  | findByKey key => Reply.found <$> b.findByKey store key
  | query criteria options => Reply.records <$> b.query store criteria options
  | count criteria => Reply.number <$> b.count store criteria
  | update criteria changes => Reply.number <$> b.update store criteria changes
  | remove criteria => Reply.number <$> b.remove store criteria
  | removeByKey key => Reply.number <$> b.removeByKey store key

inductive Event where
  | command (store : DocumentStore) (command : Command)
  | reopened

namespace Event

/-- What comes of an event, where `reopen` is what opening the database again does. -/
def perform (reopen : Attempt Archive Unit) : Event → Attempt Archive (Option Reply)
  | command store asked => some <$> asked.perform Archive.backend store
  | reopened => (fun _ => none) <$> reopen

def run (reopen : Attempt Archive Unit) :
    List Event → Archive → List (Except Failure (Option Reply)) × Archive
  | [], a => ([], a)
  | e :: events, a =>
    let (reply, b) := (e.perform reopen).outcome a
    let (replies, c) := run reopen events b
    (reply :: replies, c)

end Event

namespace DocumentStore

variable {s : DocumentStore} {a b : Archive} {f : Failure}

/-! ## What an operation that fails leaves -/

theorem rewrite_error {α : Type} {puts : List (Nat × Record)} {deletes : List Nat} {c : Collection}
    {answer : α} (h : (s.rewrite puts deletes c answer).outcome a = (.error f, b)) : b = a := by
  obtain ⟨reason, -, -, hrefused⟩ | ⟨d, -, hdone, -⟩ := s.rewrite_cases a puts deletes c answer
  · rw [hrefused] at h
    exact (Prod.mk.inj h).2.symm
  · rw [hdone] at h
    cases h

/-- An operation that only reads leaves what it found, failed or not. -/
theorem eq_of_reads {α : Type} {x : Attempt Archive α} {answer answer' : Except Failure α}
    (hreads : x.outcome a = (answer, a)) (h : x.outcome a = (answer', b)) : b = a :=
  (Prod.mk.inj (hreads.symm.trans h)).2.symm

theorem update_error {criteria : Option Criteria} {changes : Record}
    (h : (s.update criteria changes).outcome a = (.error f, b)) : b = a := by
  rw [outcome_update] at h
  cases hm : Matcher.ofCriteria criteria with
  | error e =>
      rw [hm] at h
      exact (Prod.mk.inj h).2.symm
  | ok m =>
      rw [hm] at h
      exact rewrite_error h

theorem remove_error {criteria : Option Criteria}
    (h : (s.remove criteria).outcome a = (.error f, b)) : b = a := by
  rw [outcome_remove] at h
  cases hm : Matcher.ofCriteria criteria with
  | error e =>
      rw [hm] at h
      exact (Prod.mk.inj h).2.symm
  | ok m =>
      rw [hm] at h
      exact rewrite_error h

theorem insertNew_error {record : Record}
    (h : (s.insertNew record).outcome a = (.error f, b)) : b = a := by
  rw [outcome_insertNew] at h
  simp only [] at h
  split at h
  · exact (Prod.mk.inj h).2.symm
  · exact rewrite_error h

/-- A record that is not added may have been given a key before. -/
theorem add_error {record : Record} (h : (s.add record).outcome a = (.error f, b)) :
    b = a ∨ ((s.keys.keyOf record).isNull = true ∧ s.keys.assigns = true ∧
      b = { a with supply := a.supply.afterKey }) := by
  rw [add_eq, Attempt.outcome_bind, outcome_complete] at h
  by_cases hkey : (s.keys.keyOf record).isNull = false
  · rw [if_pos hkey] at h
    exact .inl (insertNew_error h)
  · rw [if_neg hkey] at h
    by_cases hassigns : s.keys.assigns = false
    · rw [if_pos hassigns] at h
      exact .inl (Prod.mk.inj h).2.symm
    · rw [if_neg hassigns] at h
      exact .inr ⟨by simpa using hkey, by simpa using hassigns, insertNew_error h⟩

/-! ## What an operation leaves under other names -/

section Others

variable {other : String} (hother : other ≠ s.collection)

include hother

theorem rewrite_others {α : Type} (puts : List (Nat × Record)) (deletes : List Nat)
    (c : Collection) (answer : α) :
    ((s.rewrite puts deletes c answer).outcome a).2.holding other = a.holding other := by
  obtain ⟨reason, -, -, hrefused⟩ | ⟨b, -, hdone, hrewritten⟩ :=
    s.rewrite_cases a puts deletes c answer
  · rw [hrefused]
  · rw [hdone]
    exact hrewritten.others other hother

theorem update_others (criteria : Option Criteria) (changes : Record) :
    ((s.update criteria changes).outcome a).2.holding other = a.holding other := by
  rw [outcome_update]
  cases Matcher.ofCriteria criteria with
  | error f => rfl
  | ok m => exact rewrite_others hother _ _ _ _

theorem remove_others (criteria : Option Criteria) :
    ((s.remove criteria).outcome a).2.holding other = a.holding other := by
  rw [outcome_remove]
  cases Matcher.ofCriteria criteria with
  | error f => rfl
  | ok m => exact rewrite_others hother _ _ _ _

theorem insertNew_others (record : Record) :
    ((s.insertNew record).outcome a).2.holding other = a.holding other := by
  rw [outcome_insertNew]
  simp only []
  split
  · rfl
  · exact rewrite_others hother _ _ _ _

theorem add_others (record : Record) :
    ((s.add record).outcome a).2.holding other = a.holding other := by
  rw [add_eq, Attempt.outcome_bind, outcome_complete]
  by_cases hkey : (s.keys.keyOf record).isNull = false
  · rw [if_pos hkey]
    exact insertNew_others hother record
  · rw [if_neg hkey]
    by_cases hassigns : s.keys.assigns = false
    · rw [if_pos hassigns]
    · rw [if_neg hassigns]
      exact insertNew_others hother _

end Others

end DocumentStore

theorem DocumentStore.perform_others {s : DocumentStore} {other : String}
    (hother : other ≠ s.collection) (command : Command) {a : Archive} :
    ((command.perform Archive.backend s).outcome a).2.holding other = a.holding other := by
  cases command <;> rw [Command.perform, Attempt.outcome_map]
  case add record => exact DocumentStore.add_others hother record
  case find criteria =>
    exact congrArg (fun o => Archive.holding o.2 other) (s.outcome_find a criteria)
  case findByKey key =>
    exact congrArg (fun o => Archive.holding o.2 other) (s.outcome_find a _)
  case query criteria options =>
    exact congrArg (fun o => Archive.holding o.2 other) (s.outcome_query a criteria options)
  case count criteria =>
    exact congrArg (fun o => Archive.holding o.2 other) (s.outcome_count a criteria)
  case update criteria changes => exact DocumentStore.update_others hother criteria changes
  case remove criteria => exact DocumentStore.remove_others hother criteria
  case removeByKey key => exact DocumentStore.remove_others hother _

/-- A command that fails leaves the collections and the database as they were. All that may
have happened is that a key was drawn for a record that came without one. So whatever is
asked later, with whatever keys and times, comes to what it would have come to before. -/
theorem unchanged_of_error {s : DocumentStore} {command : Command} {a b : Archive} {f : Failure}
    (h : (command.perform Archive.backend s).outcome a = (.error f, b)) :
    (∀ name, b.collection name = a.collection name) ∧ b.database = a.database ∧
    (b.supply = a.supply ∨ ∃ record, command = .add record ∧
      (s.keys.keyOf record).isNull = true ∧ s.keys.assigns = true ∧
      b.supply = a.supply.afterKey) ∧
    ∀ reopen events supply,
      Event.run reopen events { b with supply } = Event.run reopen events { a with supply } := by
  have hstate : b = a ∨ ∃ record, command = .add record ∧ (s.keys.keyOf record).isNull = true ∧
      s.keys.assigns = true ∧ b = { a with supply := a.supply.afterKey } := by
    cases command with
    | add record =>
        obtain rfl | ⟨hkey, hassigns, rfl⟩ :=
          DocumentStore.add_error (Attempt.outcome_map_eq_error h)
        · exact .inl rfl
        · exact .inr ⟨record, rfl, hkey, hassigns, rfl⟩
    | find criteria =>
        exact .inl (DocumentStore.eq_of_reads (s.outcome_find a criteria)
          (Attempt.outcome_map_eq_error h))
    | findByKey key =>
        exact .inl (DocumentStore.eq_of_reads (s.outcome_find a _)
          (Attempt.outcome_map_eq_error h))
    | query criteria options =>
        exact .inl (DocumentStore.eq_of_reads (s.outcome_query a criteria options)
          (Attempt.outcome_map_eq_error h))
    | count criteria =>
        exact .inl (DocumentStore.eq_of_reads (s.outcome_count a criteria)
          (Attempt.outcome_map_eq_error h))
    | update criteria changes =>
        exact .inl (DocumentStore.update_error (Attempt.outcome_map_eq_error h))
    | remove criteria => exact .inl (DocumentStore.remove_error (Attempt.outcome_map_eq_error h))
    | removeByKey key =>
        exact .inl (DocumentStore.remove_error (Attempt.outcome_map_eq_error h))
  obtain rfl | ⟨record, hcommand, hkey, hassigns, rfl⟩ := hstate
  · exact ⟨fun _ => rfl, rfl, .inl rfl, fun _ _ _ => rfl⟩
  · exact ⟨fun _ => rfl, rfl, .inr ⟨record, hcommand, hkey, hassigns, rfl⟩, fun _ _ _ => rfl⟩

def notes : DocumentStore := ⟨"notes", { primaryKey := "uuid", assigns := true }⟩

def fullDisk : Archive where
  collections := [("notes", ⟨1, [(0, ⟨[("uuid", .string "n1")]⟩)]⟩)]
  database := some { refusal := some "disk full" }
  supply := { randomBits := fun _ => 0, clock := fun _ => default }

/-- A note that does not fit on the disk has used up a key and nothing else. -/
theorem unchanged_of_error_fullDisk :
    let refused : Archive := { fullDisk with supply := fullDisk.supply.afterKey }
    ((Command.add ⟨[("title", .string "milk")]⟩).perform Archive.backend notes).outcome fullDisk =
      (.error (Database.storageFailure "disk full"), refused) ∧
    ∀ reopen events supply, Event.run reopen events { refused with supply } =
      Event.run reopen events { fullDisk with supply } := by
  have hfails : ((Command.add ⟨[("title", .string "milk")]⟩).perform Archive.backend notes).outcome
      fullDisk = (.error (Database.storageFailure "disk full"),
        { fullDisk with supply := fullDisk.supply.afterKey }) := rfl
  exact ⟨hfails, (unchanged_of_error hfails).2.2.2⟩

end Grove
