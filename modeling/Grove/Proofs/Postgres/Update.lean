import Grove.Proofs.Document.Holding
import Grove.Proofs.Postgres.Contents

/-!
# What an update of a table counts

An update answers how many records match. A store of documents counts them before it looks at what
is to be set. A table's store leaves the counting to the server, and without anything to set it has
no statement to send, so then it answers that nothing matches (`update_counts_iff`). Changes of
nothing but the key are such ones, since the key is taken out.
-/

namespace Grove

open Postgres

theorem DocumentStore.update_counts (d : DocumentStore) (a : Archive) {c : Option Criteria}
    {m : Matcher} (hm : Matcher.ofCriteria c = .ok m) (changes : Record) :
    (∃ reason, (d.update c changes).outcome a = (.error (Database.storageFailure reason), a)) ∨
      ∃ b, (d.update c changes).outcome a =
        (.ok ((a.collection d.collection).matching m).length, b) := by
  rw [outcome_update, hm]
  obtain ⟨reason, -, -, hrefused⟩ | ⟨b, -, hdone, -⟩ := d.rewrite_cases a
    ((a.collection d.collection).changed m (d.keys.withoutKey changes)) []
    ((a.collection d.collection).update m (d.keys.withoutKey changes))
    ((a.collection d.collection).matching m).length
  · exact .inl ⟨reason, hrefused⟩
  · exact .inr ⟨b, hdone⟩

/-- Lists that correspond have as many items of a kind if the items that correspond are alike. -/
theorem length_filter_of_forall₂ {α β : Type} {p : α → Bool} {q : β → Bool} {as : List α}
    {bs : List β} (h : List.Forall₂ (fun a b => p a = q b) as bs) :
    (bs.filter q).length = (as.filter p).length := by
  induction h with
  | nil => rfl
  | cons hab _ ih =>
      rw [List.filter_cons, List.filter_cons, hab]
      split
      · exact congrArg Nat.succ ih
      · exact ih

section Counting

variable {ω α : Type} {server : Server ω} {v : Values α}
  {content : ω → Sql.Table → List (List Cell)} {s : TableStore} {c : Option Criteria}
  {w : Sql.Condition} {changes : Record}

theorem TableStore.update_answered (hkeeps : server.Keeps v content)
    (hc : Criteria.condition c = .ok w) {statement : Sql.Statement}
    (hs : Sql.update s.table w (s.keys.withoutKey changes) = some statement) (g : Gateway ω) :
    (s.update server c changes).outcome g =
      match server.answer (.statement statement.text (s.parameters statement)) g.world with
      | (.ok _, world) =>
        (.ok ((content g.world s.table).filter (s.selects v w)).length, { g with world })
      | (.error e, world) => (.error e.failure, { g with world }) := by
  obtain ⟨e, hrequest, hmeaning⟩ := Sql.Request.ofText_update hc hs
  rw [s.outcome_update server hc, hs]
  simp only []
  rcases hanswer : server.answer (.statement statement.text (s.parameters statement)) g.world with
    ⟨_ | reply, world⟩
  · rfl
  · have haffected := hkeeps.update hrequest hanswer
    rw [s.selects_statement v hmeaning] at haffected
    simp only [haffected]

end Counting

/-- An update of something besides the key is answered with the number of the rows that match, or
with the failure that the server's refusal is. Without anything else to set, the answer is zero
and the server is not asked. So the answer is the number of the rows that match exactly if there is
something to set or nothing matches. A store with the same records as documents answers with that
number for the same changes, unless its database refuses. -/
theorem update_counts_iff {ω α : Type} {server : Server ω} {v : Values α}
    {content : ω → Sql.Table → List (List Cell)} (hkeeps : server.Keeps v content)
    (s : TableStore) {c : Option Criteria} {w : Sql.Condition}
    (hc : Criteria.condition c = .ok w) (changes : Record) (g : Gateway ω) :
    let matching := (content g.world s.table).filter (s.selects v w)
    let left := s.keys.withoutKey changes
    (left.isEmpty = true → (s.update server c changes).outcome g = (.ok 0, g)) ∧
    (left.isEmpty = false → ∃ statement, Sql.update s.table w left = some statement ∧
      (s.update server c changes).outcome g =
        match server.answer (.statement statement.text (s.parameters statement)) g.world with
        | (.ok _, world) => (.ok matching.length, { g with world })
        | (.error e, world) => (.error e.failure, { g with world })) ∧
    (∀ n g', (s.update server c changes).outcome g = (.ok n, g') →
      (n = matching.length ↔ left.isEmpty = false ∨ matching = [])) ∧
    ∀ (d : DocumentStore) (a : Archive) (m : Matcher), Matcher.ofCriteria c = .ok m →
      List.Forall₂ (fun row record => s.selects v w row = m.accepts record)
        (content g.world s.table) (a.collection d.collection).records →
      (∃ reason, (d.update c changes).outcome a = (.error (Database.storageFailure reason), a)) ∨
        ∃ b, (d.update c changes).outcome a = (.ok matching.length, b) := by
  intro matching left
  have hnothing : left.isEmpty = true → (s.update server c changes).outcome g = (.ok 0, g) := by
    intro hleft
    have hnone : Sql.update s.table w left = none := if_pos hleft
    rw [s.outcome_update server hc, hnone]
  have hsomething : left.isEmpty = false → ∃ statement, Sql.update s.table w left = some statement ∧
      (s.update server c changes).outcome g =
        match server.answer (.statement statement.text (s.parameters statement)) g.world with
        | (.ok _, world) => (.ok matching.length, { g with world })
        | (.error e, world) => (.error e.failure, { g with world }) := by
    intro hleft
    obtain ⟨statement, hstatement⟩ : ∃ statement, Sql.update s.table w left = some statement :=
      ⟨_, if_neg (by rw [hleft]; exact Bool.false_ne_true)⟩
    exact ⟨statement, hstatement, TableStore.update_answered hkeeps hc hstatement g⟩
  refine ⟨hnothing, hsomething, ?_, ?_⟩
  · intro n g' hn
    cases hleft : left.isEmpty with
    | true =>
        rw [hnothing hleft] at hn
        cases hn
        rw [eq_comm, List.length_eq_zero_iff]
        exact (or_iff_right nofun).symm
    | false =>
        obtain ⟨statement, -, hanswered⟩ := hsomething hleft
        rw [hanswered] at hn
        refine iff_of_true ?_ (.inl rfl)
        split at hn
        · cases hn
          rfl
        · cases hn
  · intro d a m hm hsame
    have hcount : ((a.collection d.collection).matching m).length = matching.length :=
      length_filter_of_forall₂ hsame
    rw [← hcount]
    exact d.update_counts a hm changes

def accountRows : List (List Cell) :=
  [accountRow "a" "open", accountRow "b" "open", accountRow "c" "closed"]

def accountServer : Server Unit := accountValues.server (fun _ => accountRows) (Values.sorting _)

/-- Two open accounts are closed. -/
theorem update_counts_iff_close :
    let c : Criteria := .compare .eq "state" (.string "open")
    let changes : Record := .ofList [("uuid", .string "z"), ("state", .string "closed")]
    let g : Gateway Unit := ⟨(), ⟨fun _ => 0, fun _ => ⟨0⟩, 0, 0⟩⟩
    accountServer.Keeps accountValues (fun _ _ => accountRows) ∧
    ∃ w, Criteria.condition (some c) = .ok w ∧
      (accountRows.filter (accountTable.selects accountValues w)).length = 2 ∧
      (accountTable.update accountServer (some c) changes).outcome g = (.ok 2, g) := by
  intro c changes g
  have hkeeps : accountServer.Keeps accountValues fun _ _ => accountRows :=
    accountValues.keeps_server _ _
  obtain ⟨w, hw⟩ : ∃ w, Criteria.condition (some c) = .ok w := ⟨_, rfl⟩
  have hmatching : (accountRows.filter (accountTable.selects accountValues w)).length = 2 := by
    cases hw
    decide +kernel
  refine ⟨hkeeps, w, hw, hmatching, ?_⟩
  obtain ⟨statement, hstatement, hanswered⟩ :=
    (update_counts_iff hkeeps accountTable hw changes g).2.1 rfl
  obtain ⟨e, hrequest, -⟩ := Sql.Request.ofText_update hw hstatement
  rw [hanswered, accountServer, Values.answer_server _ _ _ hrequest]
  simp only [hmatching]

/-- Where nothing is set, or nothing but the key, two records match and the answer is none. -/
theorem matches_not_counted :
    let c : Criteria := .compare .eq "state" (.string "open")
    let g : Gateway Unit := ⟨(), ⟨fun _ => 0, fun _ => ⟨0⟩, 0, 0⟩⟩
    accountServer.Keeps accountValues (fun _ _ => accountRows) ∧
    (∃ w, Criteria.condition (some c) = .ok w ∧
      (accountRows.filter (accountTable.selects accountValues w)).length = 2) ∧
    (accountTable.update accountServer (some c) .empty).outcome g = (.ok 0, g) ∧
    (accountTable.update accountServer (some c) (.ofList [("uuid", .string "z")])).outcome g =
      (.ok 0, g) := by
  intro c g
  refine ⟨accountValues.keeps_server _ _, ⟨_, rfl, by decide +kernel⟩, rfl, rfl⟩

end Grove
