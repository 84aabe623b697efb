import Grove.Proofs.Document.Store
import Grove.Proofs.Steward

/-!
# Collections are apart

Collections share an archive and a database, but no operation on one of them looks at
another or changes it. So archives that differ only in one collection cannot be told apart
through the others, and stay so related whatever is done to those
(`backend_obeys_sameBut`). Opening a collection is the one operation on the collection
itself that is admitted here: it reads the rows of its table but answers nothing about
them, as long as they can be read at all.
-/

namespace Grove

/-- Both databases refuse alike and hold the same tables but for one, which can be read. -/
structure Database.SameBut (name : String) (d e : Database) : Prop where
  refusal : d.refusal = e.refusal
  ledger : ∀ other, other ≠ name → d.ledger other = e.ledger other
  left : (d.ledger name).records?.isSome = true
  right : (e.ledger name).records?.isSome = true

/-- Both archives hold the same but for one collection, and so do their databases. -/
structure Archive.SameBut (name : String) (a b : Archive) : Prop where
  supply : a.supply = b.supply
  collection : ∀ other, other ≠ name → a.collection other = b.collection other
  database : (a.database = none ∧ b.database = none) ∨
    ∃ d e, a.database = some d ∧ b.database = some e ∧ d.SameBut name e

namespace Database

variable {name other : String} {d e : Database}

theorem SameBut.replace (h : d.SameBut name e) (hother : other ≠ name) (j : Ledger) :
    (d.replace other j).SameBut name (e.replace other j) := by
  refine ⟨h.refusal, fun third hthird => ?_, ?_, ?_⟩
  · by_cases heq : third = other
    · rw [heq, ledger_replace_self, ledger_replace_self]
    · rw [ledger_replace _ heq, ledger_replace _ heq, h.ledger third hthird]
  · rw [ledger_replace _ (Ne.symm hother)]
    exact h.left
  · rw [ledger_replace _ (Ne.symm hother)]
    exact h.right

theorem SameBut.prepared (h : d.SameBut name e) (other : String) :
    (d.replace other (d.ledger other)).SameBut name (e.replace other (e.ledger other)) := by
  refine ⟨h.refusal, fun third hthird => ?_, ?_, ?_⟩
  · rw [ledger_replace_ledger, ledger_replace_ledger, h.ledger third hthird]
  · rw [ledger_replace_ledger]
    exact h.left
  · rw [ledger_replace_ledger]
    exact h.right

/-- A table is read from both or from neither, and to the same unless it is the one that
differs. -/
theorem SameBut.read (h : d.SameBut name e) (other : String) :
    ((d.ledger other).records? = none ∧ (e.ledger other).records? = none) ∨
    ∃ rows rows', (d.ledger other).records? = some rows ∧ (e.ledger other).records? = some rows' ∧
      (other ≠ name → rows = rows') := by
  by_cases hother : other = name
  · obtain ⟨rows, hrows⟩ := Option.isSome_iff_exists.mp h.left
    obtain ⟨rows', hrows'⟩ := Option.isSome_iff_exists.mp h.right
    exact .inr ⟨rows, rows', hother ▸ hrows, hother ▸ hrows', fun hne => absurd hother hne⟩
  · rw [h.ledger other hother]
    cases (e.ledger other).records? with
    | none => exact .inl ⟨rfl, rfl⟩
    | some rows => exact .inr ⟨rows, rows, rfl, rfl, fun _ => rfl⟩

end Database

namespace Archive

variable {name : String} {a b : Archive}

theorem SameBut.replace (h : a.SameBut name b) {other : String} {c d : Collection}
    (hsame : other ≠ name → c = d) : (a.replace other c).SameBut name (b.replace other d) := by
  refine ⟨h.supply, fun third hthird => ?_, h.database⟩
  by_cases heq : third = other
  · rw [heq, collection_replace_self, collection_replace_self, hsame (heq ▸ hthird)]
  · rw [collection_replace _ heq, collection_replace _ heq, h.collection third hthird]

end Archive

namespace DocumentStore

variable {name : String} {s : DocumentStore}

open Attempt (respects_pure respects_throw respects_get respects_liftM respects_modify)

/-- Opening a collection answers nothing about what it holds. -/
theorem opened_respects (name collection : String) (keys : KeyPolicy) :
    (opened collection keys).Respects (Archive.SameBut name)
      fun made => made.collection = collection := by
  intro a b h
  rw [outcome_opened, outcome_opened]
  rcases h.database with ⟨hd, he⟩ | ⟨d, e, hd, he, hde⟩
  · rw [hd, he]
    exact ⟨rfl, h.replace fun _ => rfl, fun _ hmade => by cases hmade; rfl⟩
  · rw [hd, he]
    simp only [Database.prepare, ← hde.refusal]
    cases d.refusal with
    | some reason => exact ⟨rfl, h, nofun⟩
    | none =>
        simp only [Database.rows, Database.ledger_replace_self]
        rcases hde.read collection with ⟨hleft, hright⟩ | ⟨rows, rows', hleft, hright, hsame⟩
        · rw [hleft, hright]
          exact ⟨rfl, h, nofun⟩
        · rw [hleft, hright]
          refine ⟨rfl, ⟨h.supply, ?_, ?_⟩, fun _ hmade => by cases hmade; rfl⟩
          · exact (h.replace fun hne => congrArg Collection.ofRows (hsame hne)).collection
          · exact .inr ⟨_, _, rfl, rfl, hde.prepared collection⟩

theorem freshKey_respects : freshKey.Respects (Archive.SameBut name) fun _ => True := by
  intro a b h
  refine ⟨?_, ⟨congrArg Supply.afterKey h.supply, h.collection, h.database⟩, fun _ _ => trivial⟩
  rw [outcome_freshKey, outcome_freshKey, h.supply]

theorem now_respects : Archive.now.Respects (Archive.SameBut name) fun _ => True := by
  intro a b h
  refine ⟨?_, ⟨congrArg Supply.afterReading h.supply, h.collection, h.database⟩, fun _ _ => trivial⟩
  rw [Archive.outcome_now, Archive.outcome_now, h.supply]

theorem replace_respects (c : Collection) :
    (s.replace c).Respects (Archive.SameBut name) fun _ => True :=
  respects_modify fun _ _ h => h.replace fun _ => rfl

variable (hs : s.collection ≠ name)

include hs

theorem contents_respects : s.contents.Respects (Archive.SameBut name) fun _ => True :=
  respects_get fun _ _ h => ⟨by rw [h.collection _ hs], respects_pure trivial⟩

theorem commit_respects (puts : List (Nat × Record)) (deletes : List Nat) :
    (s.commit puts deletes).Respects (Archive.SameBut name) fun _ => True := by
  intro a b h
  rw [outcome_commit, outcome_commit]
  rcases h.database with ⟨hd, he⟩ | ⟨d, e, hd, he, hde⟩
  · rw [hd, he]
    exact ⟨rfl, h, fun _ _ => trivial⟩
  · rw [hd, he]
    simp only [Database.write, ← hde.refusal, ← hde.ledger _ hs]
    split
    · exact ⟨rfl, h, fun _ _ => trivial⟩
    · cases d.refusal with
      | some reason => exact ⟨rfl, h, nofun⟩
      | none =>
          refine ⟨rfl, ⟨h.supply, h.collection, ?_⟩, fun _ _ => trivial⟩
          exact .inr ⟨_, _, rfl, rfl, hde.replace hs _⟩

theorem matched_respects {α : Type} {next : Matcher → Collection → Attempt Archive α}
    (hnext : ∀ m c, (next m c).Respects (Archive.SameBut name) fun _ => True)
    (criteria : Option Criteria) :
    Attempt.Respects (Archive.SameBut name) (fun _ => True) (do
      let m ← Matcher.ofCriteria criteria
      let c ← s.contents
      next m c) :=
  (respects_liftM fun _ _ => trivial).bind fun m _ =>
    (contents_respects hs).bind fun c _ => hnext m c

theorem rewrite_respects {α : Type} (puts : List (Nat × Record)) (deletes : List Nat)
    (c : Collection) (a : α) :
    Attempt.Respects (Archive.SameBut name) (fun _ => True) (do
      s.commit puts deletes
      s.replace c
      return a) :=
  (commit_respects hs puts deletes).bind fun _ _ =>
    (replace_respects c).bind fun _ _ => respects_pure trivial

theorem add_respects (record : Record) :
    (s.add record).Respects (Archive.SameBut name) fun _ => True := by
  refine (KeyPolicy.complete_respects freshKey_respects s.keys record).bind fun record _ => ?_
  refine (contents_respects hs).bind fun c _ => ?_
  split
  · exact respects_throw
  · exact rewrite_respects hs _ _ _ _

theorem find_respects (criteria : Option Criteria) :
    (s.find criteria).Respects (Archive.SameBut name) fun _ => True :=
  matched_respects hs (fun _ _ => respects_pure trivial) criteria

theorem query_respects (criteria : Option Criteria) (options : Paging) :
    (s.query criteria options).Respects (Archive.SameBut name) fun _ => True :=
  matched_respects hs (fun _ _ => respects_pure trivial) criteria

theorem count_respects (criteria : Option Criteria) :
    (s.count criteria).Respects (Archive.SameBut name) fun _ => True :=
  matched_respects hs (fun _ _ => respects_pure trivial) criteria

theorem update_respects (criteria : Option Criteria) (changes : Record) :
    (s.update criteria changes).Respects (Archive.SameBut name) fun _ => True :=
  matched_respects hs (fun _ _ => rewrite_respects hs _ _ _ _) criteria

theorem remove_respects (criteria : Option Criteria) :
    (s.remove criteria).Respects (Archive.SameBut name) fun _ => True :=
  matched_respects hs (fun _ _ => rewrite_respects hs _ _ _ _) criteria

end DocumentStore

/-- Nothing that is done to other collections, and no opening of one, can tell archives
apart that differ only in a collection. -/
theorem Archive.backend_obeys_sameBut (name : String) :
    Archive.backend.Obeys DocumentStore.collection (Archive.SameBut name) (Call.Spares name) where
  create r _ := DocumentStore.opened_respects name r.name r.keys
  add _ record h := DocumentStore.add_respects (h.resolve_right nofun) record
  find _ c h := DocumentStore.find_respects (h.resolve_right nofun) c
  query _ c o h := DocumentStore.query_respects (h.resolve_right nofun) c o
  count _ c h := DocumentStore.count_respects (h.resolve_right nofun) c
  update _ c changes h := DocumentStore.update_respects (h.resolve_right nofun) c changes
  remove _ c h := DocumentStore.remove_respects (h.resolve_right nofun) c
  now := DocumentStore.now_respects

theorem Archive.backend_labels : Archive.backend.Labels DocumentStore.collection :=
  fun _ _ _ h => congrArg DocumentStore.collection (DocumentStore.eq_of_opened h)

end Grove
