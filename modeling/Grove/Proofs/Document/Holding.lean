import Grove.Proofs.Document.Store

/-!
# What an archive holds under a name

Under every name an archive holds a collection and, if there is a database, a table. The
operations of a store that change records all end alike (`DocumentStore.rewrite`): the
table is written first and then the collection is put in place. So there are two ways for
them to end (`rewrite_cases`). The database refuses, and the archive is as it was; or what
is held under the store's own name is replaced, both parts of it, and nothing else is
different.

The operations that only read leave the archive alone. Each operation has one equation here
that says what it comes to, and nothing after this module opens one.
-/

namespace Grove

structure Holding where
  collection : Collection
  ledger : Option Ledger

namespace Archive

def holding (a : Archive) (name : String) : Holding :=
  ⟨a.collection name, a.database.map (·.ledger name)⟩

def refusal (a : Archive) : Option String := a.database.bind (·.refusal)

/-- What is held under a name was replaced, and all else is the same. -/
structure Rewritten (a b : Archive) (name : String) (c : Collection) (puts : List (Nat × Record))
    (deletes : List Nat) : Prop where
  own : b.holding name = ⟨c, (a.holding name).ledger.map fun j => (j.putAll puts).deleteAll deletes⟩
  others : ∀ other, other ≠ name → b.holding other = a.holding other
  supply : b.supply = a.supply
  refusal : b.refusal = a.refusal

end Archive

theorem Ledger.deleteAll_nil (j : Ledger) : j.deleteAll [] = j := by
  simp [deleteAll]

namespace DocumentStore

variable {α : Type} (s : DocumentStore) (a : Archive)

/-- How every change ends: what changes is written to the database, then made in memory. -/
def rewrite (puts : List (Nat × Record)) (deletes : List Nat) (c : Collection) (answer : α) :
    Attempt Archive α := do
  s.commit puts deletes
  s.replace c
  return answer

theorem rewritten_replace (c : Collection) :
    a.Rewritten (a.replace s.collection c) s.collection c [] [] where
  own := by
    rw [Archive.holding, Archive.collection_replace_self]
    cases hd : a.database <;> simp [Archive.replace, Archive.holding, hd, Ledger.putAll,
      Ledger.deleteAll_nil]
  others other h := by
    rw [Archive.holding, Archive.collection_replace a h]
    rfl
  supply := rfl
  refusal := rfl

theorem rewritten_write {d : Database} (hd : a.database = some d) (puts : List (Nat × Record))
    (deletes : List Nat) (c : Collection) :
    a.Rewritten
      (Archive.replace
        { a with database := some (d.replace s.collection
            (((d.ledger s.collection).putAll puts).deleteAll deletes)) } s.collection c)
      s.collection c puts deletes where
  own := by
    rw [Archive.holding, Archive.collection_replace_self]
    simp [Archive.replace, Archive.holding, hd, Database.ledger_replace_self]
  others other h := by
    rw [Archive.holding, Archive.collection_replace _ h]
    simp [Archive.replace, Archive.holding, Archive.collection, hd, Database.ledger_replace d h]
  supply := rfl
  refusal := by simp [Archive.replace, Archive.refusal, hd, Database.replace]

/-- The database refuses and nothing is different, or it takes what there is to write and
what is held is replaced. -/
theorem rewrite_cases (puts : List (Nat × Record)) (deletes : List Nat) (c : Collection)
    (answer : α) :
    (∃ reason, a.refusal = some reason ∧ ¬(puts = [] ∧ deletes = []) ∧
      (s.rewrite puts deletes c answer).outcome a =
        (.error (Database.storageFailure reason), a)) ∨
    (∃ b, (a.refusal = none ∨ (puts = [] ∧ deletes = [])) ∧
      (s.rewrite puts deletes c answer).outcome a = (.ok answer, b) ∧
      a.Rewritten b s.collection c puts deletes) := by
  by_cases hnothing : puts = [] ∧ deletes = []
  · obtain ⟨rfl, rfl⟩ := hnothing
    have hcommit : (s.commit [] []).outcome a = (.ok (), a) := by
      rw [outcome_commit]
      cases a.database <;> rfl
    refine .inr ⟨_, .inr ⟨rfl, rfl⟩, ?_, s.rewritten_replace a c⟩
    rw [rewrite, Attempt.outcome_bind, hcommit]
    rfl
  · have hsome : (puts.isEmpty && deletes.isEmpty) = false := by
      simpa [List.isEmpty_iff] using hnothing
    cases hd : a.database with
    | none =>
        have hcommit : (s.commit puts deletes).outcome a = (.ok (), a) := by
          rw [outcome_commit, hd]
        refine .inr ⟨a.replace s.collection c, .inl (by rw [Archive.refusal, hd]; rfl), ?_, ?_⟩
        · rw [rewrite, Attempt.outcome_bind, hcommit]
          rfl
        · obtain ⟨hown, hothers, hsupply, hrefusal⟩ := s.rewritten_replace a c
          refine ⟨?_, hothers, hsupply, hrefusal⟩
          simpa [Archive.holding, hd] using hown
    | some d =>
        cases hrefusal : d.refusal with
        | some reason =>
            refine .inl ⟨reason, by rw [Archive.refusal, hd]; exact hrefusal, hnothing, ?_⟩
            rw [rewrite, Attempt.outcome_bind, outcome_commit, hd]
            simp only [hsome, Database.write, hrefusal]
            rfl
        | none =>
            refine .inr ⟨_, .inl (by rw [Archive.refusal, hd]; exact hrefusal), ?_,
              s.rewritten_write a hd puts deletes c⟩
            rw [rewrite, Attempt.outcome_bind, outcome_commit, hd]
            simp only [hsome, Database.write, hrefusal]
            rfl

/-! ## Operations that read -/

theorem outcome_find (criteria : Option Criteria) :
    (s.find criteria).outcome a =
      ((Matcher.ofCriteria criteria).map fun m =>
        (a.collection s.collection).records.find? fun r => m.accepts r, a) := by
  rw [find, Attempt.outcome_bind, Attempt.outcome_liftM]
  cases Matcher.ofCriteria criteria <;> rfl

theorem outcome_query (criteria : Option Criteria) (options : Paging) :
    (s.query criteria options).outcome a =
      ((Matcher.ofCriteria criteria).map fun m =>
        (a.collection s.collection).select m options, a) := by
  rw [query, Attempt.outcome_bind, Attempt.outcome_liftM]
  cases Matcher.ofCriteria criteria <;> rfl

theorem outcome_count (criteria : Option Criteria) :
    (s.count criteria).outcome a =
      ((Matcher.ofCriteria criteria).map fun m =>
        ((a.collection s.collection).matching m).length, a) := by
  rw [count, Attempt.outcome_bind, Attempt.outcome_liftM]
  cases Matcher.ofCriteria criteria <;> rfl

/-! ## Operations that change -/

theorem outcome_complete (keys : KeyPolicy) (record : Record) :
    (keys.complete freshKey record).outcome a =
      if (keys.keyOf record).isNull = false then (.ok record, a)
      else if keys.assigns = false then
        (.error (.badRequest ("record requires primary key '" ++ keys.primaryKey ++ "'")), a)
      else (.ok (record.insert keys.primaryKey (.string a.supply.freshKey)),
        { a with supply := a.supply.afterKey }) := by
  rw [KeyPolicy.complete]
  cases (keys.keyOf record).isNull <;> cases keys.assigns <;> rfl

def insertNew (record : Record) : Attempt Archive Record := do
  let key := s.keys.keyOf record
  let c ← s.contents
  if c.hasKey s.keys.primaryKey key then throw (s.keyTaken key)
  s.rewrite [(c.next, record)] [] (c.push record) record

theorem add_eq (record : Record) :
    s.add record = s.keys.complete freshKey record >>= s.insertNew := rfl

theorem outcome_insertNew (record : Record) :
    (s.insertNew record).outcome a =
      let c := a.collection s.collection
      if c.hasKey s.keys.primaryKey (s.keys.keyOf record) then
        (.error (s.keyTaken (s.keys.keyOf record)), a)
      else (s.rewrite [(c.next, record)] [] (c.push record) record).outcome a := by
  have hcontents : s.contents.outcome a = (.ok (a.collection s.collection), a) := rfl
  rw [insertNew, Attempt.outcome_bind, hcontents]
  simp only []
  split
  · rfl
  · rfl

theorem outcome_update (criteria : Option Criteria) (changes : Record) :
    (s.update criteria changes).outcome a =
      match Matcher.ofCriteria criteria with
      | .error f => (.error f, a)
      | .ok m =>
        let c := a.collection s.collection
        (s.rewrite (c.changed m (s.keys.withoutKey changes)) []
          (c.update m (s.keys.withoutKey changes)) (c.matching m).length).outcome a := by
  rw [update, Attempt.outcome_bind, Attempt.outcome_liftM]
  cases Matcher.ofCriteria criteria <;> rfl

theorem outcome_remove (criteria : Option Criteria) :
    (s.remove criteria).outcome a =
      match Matcher.ofCriteria criteria with
      | .error f => (.error f, a)
      | .ok m =>
        let c := a.collection s.collection
        (s.rewrite [] (c.doomed m) (c.remove m) (c.matching m).length).outcome a := by
  rw [remove, Attempt.outcome_bind, Attempt.outcome_liftM]
  cases Matcher.ofCriteria criteria <;> rfl

end DocumentStore

end Grove
