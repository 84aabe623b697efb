import Grove.Document.Store
import Grove.Proofs.Outcome

/-!
# What operations on collections come to

A collection and its table are replaced as a whole under their name. The lemmas here say
what is found after that under the same name and under others, and what the small steps
come to that the operations of a store are made of.
-/

namespace Grove

theorem lookup_filter_ne {α : Type} {name other : String} (h : other ≠ name)
    (xs : List (String × α)) : (xs.filter (·.1 ≠ name)).lookup other = xs.lookup other := by
  induction xs with
  | nil => rfl
  | cons x xs ih =>
      obtain ⟨key, value⟩ := x
      by_cases hkey : key = name
      · rw [List.filter_cons_of_neg (by simpa using hkey), ih, List.lookup_cons,
          beq_false_of_ne (hkey ▸ h)]
      · rw [List.filter_cons_of_pos (by simpa using hkey), List.lookup_cons, List.lookup_cons, ih]

theorem lookup_replace {α : Type} {name other : String} (h : other ≠ name) (a : α)
    (xs : List (String × α)) :
    ((name, a) :: xs.filter (·.1 ≠ name)).lookup other = xs.lookup other := by
  rw [List.lookup_cons, beq_false_of_ne h]
  exact lookup_filter_ne h xs

namespace Database

variable {name other : String}

theorem ledger_replace_self (d : Database) (name : String) (j : Ledger) :
    (d.replace name j).ledger name = j := by
  rw [replace, ledger, List.lookup_cons_self]
  rfl

theorem ledger_replace (d : Database) (h : other ≠ name) (j : Ledger) :
    (d.replace name j).ledger other = d.ledger other := by
  rw [replace, ledger, lookup_replace h, ledger]

/-- Putting a table back as it is changes nothing that can be told. -/
theorem ledger_replace_ledger (d : Database) (name other : String) :
    (d.replace name (d.ledger name)).ledger other = d.ledger other := by
  by_cases h : other = name
  · rw [h, ledger_replace_self]
  · rw [ledger_replace _ h]

end Database

namespace Archive

variable {name : String}

theorem collection_replace_self (a : Archive) (name : String) (c : Collection) :
    (a.replace name c).collection name = c := by
  rw [replace, collection, List.lookup_cons_self]
  rfl

theorem collection_replace (a : Archive) {other : String} (h : other ≠ name) (c : Collection) :
    (a.replace name c).collection other = a.collection other := by
  rw [replace, collection, lookup_replace h, collection]

theorem outcome_now (a : Archive) :
    now.outcome a = (.ok a.supply.time, { a with supply := a.supply.afterReading }) := rfl

end Archive

/-- Giving a record a key depends on the state only as far as the keys do that are drawn. -/
theorem KeyPolicy.complete_respects {σ : Type} {R : σ → σ → Prop} {fresh : Attempt σ String}
    (hfresh : fresh.Respects R fun _ => True) (keys : KeyPolicy) (record : Record) :
    (keys.complete fresh record).Respects R fun _ => True := by
  rw [complete]
  split
  · exact Attempt.respects_pure trivial
  · split
    · exact Attempt.respects_throw.bind fun _ h => h
    · exact hfresh.bind fun _ _ => Attempt.respects_pure trivial

namespace DocumentStore

theorem outcome_freshKey (a : Archive) :
    freshKey.outcome a = (.ok a.supply.freshKey, { a with supply := a.supply.afterKey }) := rfl

theorem outcome_opened (name : String) (keys : KeyPolicy) (a : Archive) :
    (opened name keys).outcome a =
      match a.database with
      | none => (.ok ⟨name, keys⟩, a.replace name {})
      | some d =>
        match d.prepare name with
        | .error f => (.error f, a)
        | .ok d =>
          match d.rows name with
          | .error f => (.error f, a)
          | .ok rows =>
            (.ok ⟨name, keys⟩, { a.replace name (.ofRows rows) with database := some d }) := by
  rw [opened, Attempt.outcome_get_bind]
  cases a.database with
  | none => rfl
  | some d =>
      cases hprepare : d.prepare name with
      | error f => simp only [hprepare]; rfl
      | ok d' =>
          cases hrows : d'.rows name with
          | error f => simp only [hprepare, Attempt.outcome_bind, Attempt.outcome_liftM, hrows]
          | ok rows => simp only [hprepare, Attempt.outcome_bind, Attempt.outcome_liftM, hrows]; rfl

theorem eq_of_opened {name : String} {keys : KeyPolicy} {a : Archive} {s : DocumentStore}
    (h : ((opened name keys).outcome a).1 = .ok s) : s = ⟨name, keys⟩ := by
  rw [outcome_opened] at h
  split at h
  · cases h; rfl
  · split at h
    · cases h
    · split at h
      · cases h
      · cases h; rfl

theorem outcome_commit (s : DocumentStore) (puts : List (Nat × Record)) (deletes : List Nat)
    (a : Archive) :
    (s.commit puts deletes).outcome a =
      match a.database with
      | none => (.ok (), a)
      | some d =>
        if puts.isEmpty && deletes.isEmpty then (.ok (), a)
        else
          match d.write s.collection puts deletes with
          | .error f => (.error f, a)
          | .ok d => (.ok (), { a with database := some d }) := by
  rw [commit, Attempt.outcome_get_bind]
  cases a.database with
  | none => rfl
  | some d =>
      cases puts.isEmpty && deletes.isEmpty with
      | true => rfl
      | false => cases hwrite : d.write s.collection puts deletes <;> simp only [hwrite] <;> rfl

/-- A record that is given a key keeps what it has. -/
theorem get?_of_complete {σ : Type} {keys : KeyPolicy} {fresh : Attempt σ String}
    {record completed : Record} {a b : σ}
    (h : (keys.complete fresh record).outcome a = (.ok completed, b)) {name : String}
    {value : Json} (hvalue : record.get? name = some value) (hnull : value.isNull = false) :
    completed.get? name = some value := by
  rw [KeyPolicy.complete] at h
  split at h
  · cases h
    exact hvalue
  · next hkey =>
      have hname : name ≠ keys.primaryKey := by
        rintro rfl
        rw [KeyPolicy.keyOf, hvalue] at hkey
        exact hkey (by rw [Option.getD_some, hnull]; rfl)
      split at h
      · obtain ⟨_, _, hthrow, -⟩ := Attempt.outcome_bind_eq_ok.mp h
        cases hthrow
      · obtain ⟨key, _, -, h⟩ := Attempt.outcome_bind_eq_ok.mp h
        cases h
        rw [Record.get?_insert, if_neg hname, hvalue]

/-- What is answered when a record is added is in the collection from then on, and it has
what the record had. -/
theorem add_eq_ok {s : DocumentStore} {record stored : Record} {a b : Archive}
    (h : (s.add record).outcome a = (.ok stored, b)) :
    stored ∈ (b.collection s.collection).records ∧
      ∀ name value, record.get? name = some value → value.isNull = false →
        stored.get? name = some value := by
  obtain ⟨completed, a₁, hcomplete, h⟩ := Attempt.outcome_bind_eq_ok.mp h
  obtain ⟨c, a₂, -, h⟩ := Attempt.outcome_bind_eq_ok.mp h
  split at h
  · obtain ⟨_, _, hthrow, -⟩ := Attempt.outcome_bind_eq_ok.mp h
    cases hthrow
  · obtain ⟨_, a₃, -, h⟩ := Attempt.outcome_bind_eq_ok.mp h
    obtain ⟨_, a₄, hreplace, h⟩ := Attempt.outcome_bind_eq_ok.mp h
    cases hreplace
    cases h
    refine ⟨?_, fun name value hvalue hnull => get?_of_complete hcomplete hvalue hnull⟩
    rw [Archive.collection_replace_self]
    simp [Collection.records, Collection.push]

end DocumentStore

end Grove
