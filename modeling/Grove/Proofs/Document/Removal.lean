import Grove.Proofs.Document.Holding

/-!
# What a removal leaves

A removal is said here by what goes (`Holding.without`), a property of records that need
not be one that can be computed. The rows that stay keep their order and their numbers, and
the table loses the rows of the numbers that go.
-/

namespace Grove

section

open Classical

/-- The collection without the records that go. -/
noncomputable def Collection.without (c : Collection) (gone : Record → Prop) : Collection :=
  { c with rows := c.rows.filter fun row => ¬ gone row.2 }

noncomputable def Holding.without (h : Holding) (gone : Record → Prop) : Holding where
  collection := h.collection.without gone
  ledger := h.ledger.map fun j =>
    j.deleteAll ((h.collection.rows.filter fun row => gone row.2).map (·.1))

theorem Collection.mem_records_without {c : Collection} {gone : Record → Prop} {r : Record} :
    r ∈ (c.without gone).records ↔ r ∈ c.records ∧ ¬ gone r := by
  simp only [records, without, List.mem_map, List.mem_filter, decide_eq_true_eq]
  constructor
  · rintro ⟨row, ⟨hrow, hgone⟩, rfl⟩
    exact ⟨⟨row, hrow, rfl⟩, hgone⟩
  · rintro ⟨⟨row, hrow, rfl⟩, hgone⟩
    exact ⟨row, ⟨hrow, hgone⟩, rfl⟩

namespace Holding

variable {h : Holding} {gone : Record → Prop}

theorem without_congr {gone' : Record → Prop}
    (hsame : ∀ r ∈ h.collection.records, gone r ↔ gone' r) : h.without gone = h.without gone' := by
  have hrow : ∀ row ∈ h.collection.rows, (gone row.2 ↔ gone' row.2) := fun row hrow =>
    hsame row.2 (List.mem_map_of_mem hrow)
  have hstay : (h.collection.rows.filter fun row => ¬ gone row.2) =
      h.collection.rows.filter fun row => ¬ gone' row.2 :=
    List.filter_congr fun row hmem => by simp only [hrow row hmem]
  have hgo : (h.collection.rows.filter fun row => gone row.2) =
      h.collection.rows.filter fun row => gone' row.2 :=
    List.filter_congr fun row hmem => by simp only [hrow row hmem]
  rw [without, without, Collection.without, Collection.without, hstay, hgo]

theorem without_of_forall_not (hnone : ∀ r ∈ h.collection.records, ¬ gone r) :
    h.without gone = h := by
  have hrow : ∀ row ∈ h.collection.rows, ¬ gone row.2 := fun row hrow =>
    hnone row.2 (List.mem_map_of_mem hrow)
  have hstay : (h.collection.rows.filter fun row => ¬ gone row.2) = h.collection.rows :=
    List.filter_eq_self.mpr fun row hmem => decide_eq_true (hrow row hmem)
  have hgo : (h.collection.rows.filter fun row => gone row.2) = [] :=
    List.filter_eq_nil_iff.mpr fun row hmem => by simpa using hrow row hmem
  rw [without, Collection.without, hstay, hgo, List.map_nil, funext Ledger.deleteAll_nil]
  cases h with
  | mk collection ledger => cases ledger <;> rfl

theorem without_accepts (m : Matcher) :
    h.without (fun r => m.accepts r = true) =
      ⟨h.collection.remove m, h.ledger.map fun j =>
        (j.putAll []).deleteAll (h.collection.doomed m)⟩ := by
  simp only [without, Collection.without, Collection.remove, Collection.doomed, Ledger.putAll,
    List.foldl_nil, Bool.not_eq_true, Bool.decide_eq_false, Bool.decide_eq_true]

end Holding

end

namespace DocumentStore

variable (s : DocumentStore) (a : Archive) (c : Option Criteria)

/-- A removal fails and nothing goes, or just the records go that match. -/
theorem remove_cases :
    (∃ f, (s.remove c).outcome a = (.error f, a)) ∨
    ∃ m b, Matcher.ofCriteria c = .ok m ∧
      (s.remove c).outcome a = (.ok ((a.collection s.collection).matching m).length, b) ∧
      (a.refusal = none ∨ (a.collection s.collection).matching m = []) ∧
      b.holding s.collection =
        (a.holding s.collection).without (fun r => m.accepts r = true) ∧
      (∀ other, other ≠ s.collection → b.holding other = a.holding other) ∧
      b.refusal = a.refusal := by
  rw [outcome_remove]
  cases hm : Matcher.ofCriteria c with
  | error f => exact .inl ⟨f, rfl⟩
  | ok m =>
      obtain ⟨reason, -, -, hrefused⟩ | ⟨b, hwritable, hdone, hrewritten⟩ :=
        s.rewrite_cases a [] ((a.collection s.collection).doomed m)
          ((a.collection s.collection).remove m) ((a.collection s.collection).matching m).length
      · exact .inl ⟨_, hrefused⟩
      · refine .inr ⟨m, b, rfl, hdone, hwritable.imp_right fun hnothing => ?_, ?_,
          hrewritten.others, hrewritten.refusal⟩
        · rw [← List.length_eq_zero_iff, ← Collection.length_doomed, hnothing.2, List.length_nil]
        · rw [hrewritten.own, Holding.without_accepts]
          rfl

/-- A removal is made if the database takes it or there is nothing to remove. -/
theorem remove_isOk {m : Matcher} (hm : Matcher.ofCriteria c = .ok m)
    (h : a.refusal = none ∨ (a.collection s.collection).matching m = []) :
    ∃ n b, (s.remove c).outcome a = (.ok n, b) := by
  rw [outcome_remove, hm]
  obtain ⟨reason, hrefusal, hsome, -⟩ | ⟨b, -, hdone, -⟩ :=
    s.rewrite_cases a [] ((a.collection s.collection).doomed m)
      ((a.collection s.collection).remove m) ((a.collection s.collection).matching m).length
  · have hnothing := h.resolve_left (by rw [hrefusal]; nofun)
    refine absurd ⟨rfl, ?_⟩ hsome
    rw [← List.length_eq_zero_iff, Collection.length_doomed, hnothing, List.length_nil]
  · exact ⟨_, b, hdone⟩

end DocumentStore

end Grove
