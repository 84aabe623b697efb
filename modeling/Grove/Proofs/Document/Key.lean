import Grove.Proofs.Criteria.Confine
import Grove.Proofs.Document.Holding
import Grove.Proofs.Document.Sound

/-!
# Records by their keys

A new key is held against the others as it is written, but a record is looked up by an
equality like any other, and that knows fewer differences: a list equals its items, and `1`
equals `1.0`. So keys can be told apart when they are added and not when they are used. For
such a key the operations take in more records than one (`keys_mistaken`).

Where no stored key answers to another in this way, a key is an address: the record that was
just added is found by it, and removing by it puts the collection back to what it was
(`key_addresses_added`). That is an equivalence, so these are all the keys there are to be
wary of, as long as the key's name is a field's name to criteria, and the key is not itself
read as tests.
-/

namespace Grove

open Matcher (isOperator)

/-- A name that criteria take as it is: it is neither empty nor an operator, and no path. -/
structure KeyPolicy.Plain (keys : KeyPolicy) : Prop where
  ne_empty : keys.primaryKey ≠ ""
  not_operator : isOperator keys.primaryKey = false
  not_path : Text.has keys.primaryKey '.' = false

/-- Whether a key that is stored is taken for another key: a number for one of its value, and
a list for anything but a list that it has among its items. -/
def Json.answersTo : Json → Json → Bool
  | .number held, .number key => held.toDouble.same key.toDouble
  | .array _, .array _ => false
  | .array items, key => items.any (·.equalScalar key)
  | _, _ => false

/-- A field equals a key when it is the same or answers to it. -/
theorem Json.equalField_eq (held key : Json) :
    equalField (some held) key = (held.same key || held.answersTo key) := by
  cases held with
  | number m =>
      cases key with
      | number n =>
          simp only [equalField, equalScalar, same, answersTo]
          cases hsame : m.same n with
          | false => rfl
          | true => exact Number.toDouble_same_of_same hsame
      | null | bool | string | array | object => rfl
  | array items => cases key <;> simp [equalField, equalScalar, same, answersTo]
  | null | bool | string | object =>
      cases key <;> simp [equalField, equalScalar, same, answersTo]

namespace DocumentStore

variable {s : DocumentStore} {a b : Archive} {record stored : Record}

/-! ## What an addition leaves -/

theorem insertNew_eq_ok (h : (s.insertNew record).outcome a = (.ok stored, b)) :
    stored = record ∧
      (a.collection s.collection).hasKey s.keys.primaryKey (s.keys.keyOf record) = false ∧
      b.collection s.collection = (a.collection s.collection).push record ∧ b.refusal = none := by
  rw [outcome_insertNew] at h
  simp only [] at h
  split at h
  · cases h
  · next hkey =>
      obtain ⟨reason, -, -, hrefused⟩ | ⟨b', hwritable, hdone, hrewritten⟩ :=
        s.rewrite_cases a [((a.collection s.collection).next, record)] []
          ((a.collection s.collection).push record) record
      · rw [hrefused] at h
        cases h
      · obtain ⟨hstored, rfl⟩ := Prod.mk.inj (hdone.symm.trans h)
        have hrefusal : a.refusal = none := hwritable.resolve_right fun hnothing => by
          cases hnothing.1
        exact ⟨(Except.ok.inj hstored).symm, by simpa using hkey,
          congrArg Holding.collection hrewritten.own, hrewritten.refusal.trans hrefusal⟩

/-- A record is added with a key that no other has, at the end, and only if the database
takes it. -/
theorem pushed_of_add (h : (s.add record).outcome a = (.ok stored, b)) :
    (s.keys.keyOf stored).isNull = false ∧
      (a.collection s.collection).hasKey s.keys.primaryKey (s.keys.keyOf stored) = false ∧
      b.collection s.collection = (a.collection s.collection).push stored ∧ b.refusal = none := by
  rw [add_eq, Attempt.outcome_bind, outcome_complete] at h
  by_cases hkey : (s.keys.keyOf record).isNull = false
  · rw [if_pos hkey] at h
    obtain ⟨rfl, hadded⟩ := insertNew_eq_ok h
    exact ⟨hkey, hadded⟩
  · rw [if_neg hkey] at h
    by_cases hassigns : s.keys.assigns = false
    · rw [if_pos hassigns] at h
      cases h
    · rw [if_neg hassigns] at h
      obtain ⟨rfl, hadded⟩ := insertNew_eq_ok h
      refine ⟨?_, hadded⟩
      rw [KeyPolicy.keyOf, Record.get?_insert, if_pos rfl]
      rfl

/-! ## What a key selects -/

/-- The criteria of a key compile, and they select what has the key or answers to it. -/
theorem matcher_of_key (hplain : s.keys.Plain) {key : Json} (hvalue : key.isTests = false) :
    ∃ m, Matcher.ofCriteria (some (Archive.backend.keyCriteria s key)) = .ok m ∧
      ∀ r, m.accepts r = ((s.keys.keyOf r).same key || (s.keys.keyOf r).answersTo key) := by
  have hname : Criteria.checkName s.keys.primaryKey = .ok () := by
    have hnot := hplain.not_operator
    rw [Criteria.checkName, if_neg hplain.ne_empty, if_neg (by simpa [isOperator] using hnot)]
  have hfilter : Criteria.filter (some (.eq s.keys.primaryKey key)) =
      .ok (.object [(s.keys.primaryKey, key)]) := by
    have hheight : (Criteria.eq s.keys.primaryKey key).checkHeight = .ok () :=
      (Criteria.checkHeight_eq_ok_iff _).mpr (by rw [Criteria.levels_eq]; decide)
    rw [Criteria.filter, hheight, Criteria.eq]
    simp only [Criteria.toFilter, hname]
    rfl
  obtain ⟨m, hm, hselects⟩ := Criteria.ofFilter_filter hfilter (by
    rw [Criteria.eq, Criteria.EqualsValues]
    exact fun _ => hvalue)
  refine ⟨m, ?_, fun r => ?_⟩
  · have hcriteria : Archive.backend.keyCriteria s key = .eq s.keys.primaryKey key := rfl
    rw [hcriteria, Matcher.ofCriteria, hfilter]
    simp only [hm]
  · rw [hselects, Criteria.eq, Criteria.selects, Comparison.holds,
      Matcher.fieldAt_flat hplain.not_path, KeyPolicy.keyOf]
    cases r.get? s.keys.primaryKey with
    | some held => exact Json.equalField_eq held key
    | none => cases key <;> rfl

/-- What a removal by criteria leaves where nothing is refused. -/
theorem remove_eq_ok_of_writable {c : Option Criteria} {m : Matcher}
    (hm : Matcher.ofCriteria c = .ok m) (hwritable : b.refusal = none) :
    ∃ d, (s.remove c).outcome b = (.ok ((b.collection s.collection).matching m).length, d) ∧
      d.collection s.collection = (b.collection s.collection).remove m ∧
      ∀ other, other ≠ s.collection → d.holding other = b.holding other := by
  rw [outcome_remove, hm]
  obtain ⟨reason, hrefused, -⟩ | ⟨d, -, hdone, hrewritten⟩ :=
    s.rewrite_cases b [] ((b.collection s.collection).doomed m)
      ((b.collection s.collection).remove m) ((b.collection s.collection).matching m).length
  · rw [hwritable] at hrefused
    cases hrefused
  · exact ⟨d, hdone, congrArg Holding.collection hrewritten.own, hrewritten.others⟩

end DocumentStore

/-- A record that was just added is found by its key, and a removal by that key would take
this record and no other, exactly if no key that was there before answers to it. -/
theorem key_addresses_added {s : DocumentStore} {record stored : Record} {a b : Archive}
    (hplain : s.keys.Plain) (hadd : (s.add record).outcome a = (.ok stored, b))
    (hvalue : (s.keys.keyOf stored).isTests = false) :
    ((Archive.backend.findByKey s (s.keys.keyOf stored)).outcome b = (.ok (some stored), b) ∧
      ∃ c, (Archive.backend.removeByKey s (s.keys.keyOf stored)).outcome b = (.ok 1, c) ∧
        (c.collection s.collection).rows = (a.collection s.collection).rows ∧
        ∀ other, other ≠ s.collection → c.holding other = b.holding other) ↔
    ∀ r ∈ (a.collection s.collection).records,
      (s.keys.keyOf r).answersTo (s.keys.keyOf stored) = false := by
  obtain ⟨hnull, hkey, hpushed, hwritable⟩ := DocumentStore.pushed_of_add hadd
  obtain ⟨m, hm, haccepts⟩ := DocumentStore.matcher_of_key hplain hvalue
  have hstored : m.accepts stored = true := by
    rw [haccepts, Json.same_refl, Bool.true_or]
  have hbefore : ∀ r ∈ (a.collection s.collection).records,
      m.accepts r = (s.keys.keyOf r).answersTo (s.keys.keyOf stored) := by
    intro r hr
    rw [haccepts, Collection.same_eq_false_of_hasKey hkey hnull hr, Bool.false_or]
  obtain ⟨c, hremove, hleft, hothers⟩ :=
    DocumentStore.remove_eq_ok_of_writable (s := s) hm hwritable
  have hmatching : (b.collection s.collection).matching m =
      (a.collection s.collection).matching m ++ [stored] := by
    rw [hpushed, Collection.matching, Collection.records_push, List.filter_append,
      List.filter_cons, if_pos hstored]
    rfl
  constructor
  · rintro ⟨-, c', hone, -⟩ r hr
    -- one record went, and that was the one that was added
    have hcount : (.ok ((b.collection s.collection).matching m).length : Except Failure Nat) =
        .ok 1 := (Prod.mk.inj (hremove.symm.trans hone)).1
    have hnone : (a.collection s.collection).matching m = [] := by
      have hlength := Except.ok.inj hcount
      rw [hmatching, List.length_append] at hlength
      exact List.length_eq_zero_iff.mp (by simpa using hlength)
    have hrefused := List.filter_eq_nil_iff.mp hnone r hr
    rw [← hbefore r hr]
    simpa using hrefused
  · intro hfree
    have hrefused : ∀ r ∈ (a.collection s.collection).records, m.accepts r = false := fun r hr =>
      (hbefore r hr).trans (hfree r hr)
    have hnone : (a.collection s.collection).matching m = [] :=
      List.filter_eq_nil_iff.mpr fun r hr => by simp [hrefused r hr]
    refine ⟨?_, c, ?_, ?_, hothers⟩
    · have hfound : (b.collection s.collection).records.find? (fun r => m.accepts r) =
          some stored := by
        rw [hpushed, Collection.records_push, List.find?_append,
          List.find?_eq_none.mpr fun r hr => by simp [hrefused r hr]]
        simp [hstored]
      have hfind := s.outcome_find b (some (Archive.backend.keyCriteria s (s.keys.keyOf stored)))
      rw [hm, Except.map, hfound] at hfind
      exact hfind
    · rw [hmatching, hnone] at hremove
      exact hremove
    · have hrows : ∀ row ∈ (a.collection s.collection).rows, (!m.accepts row.2) = true := by
        intro row hrow
        rw [hrefused row.2 (List.mem_map_of_mem hrow)]
        rfl
      rw [hleft, hpushed, Collection.remove, Collection.push, List.filter_append,
        List.filter_eq_self.mpr hrows, List.filter_cons, if_neg (by simp [hstored])]
      exact List.append_nil _

def labels (primaryKey : String) : DocumentStore := ⟨"labels", { primaryKey, assigns := false }⟩

/-- What comes of a removal by a key after records were added to a new store. -/
def removedAfter (s : DocumentStore) (records : List Record) (key : Json) : Except Failure Nat :=
  let asked : Attempt Archive Nat := do
    for record in records do
      let _ ← s.add record
    Archive.backend.removeByKey s key
  (asked.outcome (Archive.inMemory [s] flagSupply)).1

def onePointZero : Number := .float ⟨false, 0x10000000000000, 1022, by decide⟩

/-- The key of the record that was added last takes two records away where another number or
a list answers to it, and none where its field is a path, an operator or no field at all. -/
theorem keys_mistaken :
    removedAfter (labels "tag") [⟨[("tag", .number (.int 1))]⟩, ⟨[("tag", .number onePointZero)]⟩]
      (.number onePointZero) = .ok 2 ∧
    removedAfter (labels "tag") [⟨[("tag", .array [.string "a"])]⟩, ⟨[("tag", .string "a")]⟩]
      (.string "a") = .ok 2 ∧
    removedAfter (labels "tag") [⟨[("tag", .string "a")]⟩, ⟨[("tag", .object [("$ne", .null)])]⟩]
      (.object [("$ne", .null)]) = .ok 2 ∧
    removedAfter (labels "tag.id") [⟨[("tag.id", .string "a")]⟩] (.string "a") = .ok 0 ∧
    removedAfter (labels "$id") [⟨[("$id", .string "a")]⟩] (.string "a") =
      .error (.ofCriteria (.operatorField "$id")) := by
  decide +kernel

def labelled : Archive where
  collections :=
    [("labels", ⟨2, [(0, ⟨[("tag", .array [.string "a"])]⟩), (1, ⟨[("tag", .ofInt 1)]⟩)]⟩)]
  supply := flagSupply

/-- A list is an address even beside its items and beside other lists of them. -/
theorem key_addresses_added_list :
    let stored : Record := ⟨[("tag", .array [.string "a", .ofInt 1])]⟩
    let b := (((labels "tag").add stored).outcome labelled).2
    (labels "tag").keys.Plain ∧ ((labels "tag").add stored).outcome labelled = (.ok stored, b) ∧
    ((labels "tag").keys.keyOf stored).isTests = false ∧
    (Archive.backend.findByKey (labels "tag") (.array [.string "a", .ofInt 1])).outcome b =
      (.ok (some stored), b) ∧
    ∃ c, (Archive.backend.removeByKey (labels "tag") (.array [.string "a", .ofInt 1])).outcome b =
        (.ok 1, c) ∧
      (c.collection "labels").rows = (labelled.collection "labels").rows := by
  intro stored b
  have hplain : (labels "tag").keys.Plain := ⟨by decide, by decide, by decide⟩
  have hadd : ((labels "tag").add stored).outcome labelled = (.ok stored, b) := rfl
  have hfree : ∀ r ∈ (labelled.collection "labels").records,
      ((labels "tag").keys.keyOf r).answersTo (.array [.string "a", .ofInt 1]) = false :=
    List.forall_mem_cons.mpr ⟨rfl, List.forall_mem_singleton.mpr rfl⟩
  obtain ⟨hfound, c, hremoved, hrows, -⟩ := (key_addresses_added hplain hadd rfl).mpr hfree
  exact ⟨hplain, hadd, rfl, hfound, c, hremoved, hrows⟩

end Grove
