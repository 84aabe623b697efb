import Grove.Proofs.Criteria.Confine
import Grove.Proofs.Document.Removal
import Grove.Proofs.Service.Complete

/-!
# The keys that a removal goes by

Before records are removed, their keys are read in windows, and what depends on them is
found by comparing a field with the list of the keys. Both are said here without windows
and without criteria: the keys are those of the records that match, as many as there are
(`keysFrom_eq_ok`), and the records that are found are those whose field equals one of them
(`accepts_belongingTo`).

The backend is one that keeps documents, but it need not be well: any query and any removal
may fail for reasons of its own, as long as it then does nothing (`Backend.Faulty`).
-/

namespace Grove

def DocumentStore.ofResource (r : Resource) : DocumentStore := ⟨r.name, r.keys⟩

variable {σ : Type}

/-- Queries and removals are those of document stores, except that any of them may fail,
and then nothing is changed. -/
structure Backend.Faulty (b : Backend σ DocumentStore) (archive : σ → Archive) : Prop where
  makes : b.Makes DocumentStore.ofResource
  keys : b.keys = DocumentStore.keys
  query : ∀ s c o u, archive ((b.query s c o).outcome u).2 = archive u ∧
    ∀ found, ((b.query s c o).outcome u).1 = .ok found →
      ((DocumentStore.query s c o).outcome (archive u)).1 = .ok found
  remove : ∀ s c u,
    (∃ f, ((b.remove s c).outcome u).1 = .error f ∧
      archive ((b.remove s c).outcome u).2 = archive u) ∨
    (((b.remove s c).outcome u).1 = ((DocumentStore.remove s c).outcome (archive u)).1 ∧
      archive ((b.remove s c).outcome u).2 = ((DocumentStore.remove s c).outcome (archive u)).2)

theorem Archive.backend_makes : Archive.backend.Makes DocumentStore.ofResource :=
  fun _ _ _ h => DocumentStore.eq_of_opened h

theorem Archive.backend_faulty : Archive.backend.Faulty id where
  makes := backend_makes
  keys := rfl
  query s c o a := ⟨congrArg Prod.snd (s.outcome_query a c o), fun _ h => h⟩
  remove _ _ _ := .inr ⟨rfl, rfl⟩

namespace Steward

variable {b : Backend σ DocumentStore} {archive : σ → Archive} {s : DocumentStore}
  {c : Option Criteria} {windows offset : Nat}

theorem window_page (offset : Nat) :
    Paging.window { limit := some Window.largestSize, offset := some offset } =
      ⟨Window.largestSize, offset⟩ := by
  cases offset <;> rfl

theorem select_page (d : Collection) (m : Matcher) (offset : Nat) :
    d.select m { limit := some Window.largestSize, offset := some offset } =
      ((d.matching m).drop offset).take Window.largestSize := by
  rw [Collection.select, window_page]
  rfl

section

variable (hb : b.Faulty archive)

include hb

theorem query_eq_ok {o : Paging} {u v : σ} {found : List Record}
    (h : (b.query s c o).outcome u = (.ok found, v)) :
    archive v = archive u ∧ ∃ m, Matcher.ofCriteria c = .ok m ∧
      found = ((archive u).collection s.collection).select m o := by
  obtain ⟨hsame, hfound⟩ := hb.query s c o u
  rw [h] at hsame hfound
  refine ⟨hsame, ?_⟩
  have hanswer := hfound found rfl
  rw [DocumentStore.outcome_query] at hanswer
  obtain ⟨m, hm, hselect⟩ := map_eq_ok.mp hanswer
  exact ⟨m, hm, hselect.symm⟩

theorem archive_keysFrom (windows offset : Nat) (u : σ) :
    archive ((keysFrom b s c windows offset).outcome u).2 = archive u := by
  induction windows generalizing offset u with
  | zero => rfl
  | succ windows ih =>
      have hsame := (hb.query s c { limit := some Window.largestSize, offset := some offset } u).1
      rw [keysFrom, Attempt.outcome_bind]
      rcases hquery : (b.query s c _).outcome u with ⟨f | page, v⟩ <;> rw [hquery] at hsame
      · exact hsame
      · simp only []
        split
        · exact hsame
        · rw [Attempt.outcome_bind]
          have hrest := (ih (offset + Window.largestSize) v).trans hsame
          rcases hkeys : (keysFrom b s c windows _).outcome v with ⟨f | rest, w⟩ <;>
            rw [hkeys] at hrest <;> exact hrest

/-- The keys that are read are those of all records that match, and there are not so many of
these that the offsets do not suffice. -/
theorem keysFrom_eq_ok {u v : σ} {keys : List Json}
    (h : (keysFrom b s c windows offset).outcome u = (.ok keys, v)) :
    ∃ m, Matcher.ofCriteria c = .ok m ∧
      keys = ((((archive u).collection s.collection).matching m).drop offset).filterMap
        (·.get? s.keys.primaryKey) ∧
      (((archive u).collection s.collection).matching m).length <
        offset + windows * Window.largestSize := by
  have hpositive : 0 < Window.largestSize := by decide
  induction windows generalizing offset u keys with
  | zero => cases h
  | succ windows ih =>
      rw [keysFrom] at h
      obtain ⟨page, u', hquery, h⟩ := Attempt.outcome_bind_eq_ok.mp h
      obtain ⟨hsame, m, hm, hpage⟩ := query_eq_ok hb hquery
      rw [select_page] at hpage
      rw [hb.keys] at h
      refine ⟨m, hm, ?_⟩
      generalize hmatching : ((archive u).collection s.collection).matching m = found at hpage ⊢
      have hlength : page.length = min Window.largestSize (found.length - offset) := by
        rw [hpage, List.length_take, List.length_drop]
      simp only [] at h
      split at h
      · next hlast =>
          cases h
          have hwhole : (found.drop offset).take Window.largestSize = found.drop offset :=
            List.take_of_length_le (by rw [List.length_drop]; omega)
          refine ⟨by rw [hpage, hwhole], ?_⟩
          rw [Nat.succ_mul]
          omega
      · next hfull =>
          obtain ⟨rest, u'', hrest, h⟩ := Attempt.outcome_bind_eq_ok.mp h
          cases h
          obtain ⟨m', hm', hkeys, hbound⟩ := ih hrest
          cases hm.symm.trans hm'
          rw [hsame, hmatching] at hkeys hbound
          refine ⟨?_, by rw [Nat.succ_mul]; omega⟩
          rw [hkeys, hpage, ← List.filterMap_append, ← List.drop_drop, List.take_append_drop]

end

/-- Without failures it is a matter of the offsets alone whether the keys are read. -/
theorem outcome_keysFrom {a : Archive} {m : Matcher} (hm : Matcher.ofCriteria c = .ok m)
    (hstart : offset ≤ ((a.collection s.collection).matching m).length) :
    (keysFrom Archive.backend s c windows offset).outcome a =
      if ((a.collection s.collection).matching m).length <
          offset + windows * Window.largestSize then
        (.ok ((((a.collection s.collection).matching m).drop offset).filterMap
          (·.get? s.keys.primaryKey)), a)
      else (.error offsetsUsedUp, a) := by
  have hpositive : 0 < Window.largestSize := by decide
  generalize hfound : (a.collection s.collection).matching m = found at hstart ⊢
  induction windows generalizing offset with
  | zero => rw [if_neg (by omega)]; rfl
  | succ windows ih =>
      have hquery : (Archive.backend.query s c
          { limit := some Window.largestSize, offset := some offset }).outcome a =
          (.ok ((found.drop offset).take Window.largestSize), a) := by
        rw [← hfound, ← select_page, Archive.backend, DocumentStore.outcome_query, hm]
        rfl
      rw [keysFrom, Attempt.outcome_bind, hquery, Nat.succ_mul]
      simp only [List.length_take, List.length_drop]
      split
      · next hlast =>
          -- the page is not full, so it is the rest
          rw [if_pos (by omega), List.take_of_length_le (by rw [List.length_drop]; omega)]
          rfl
      · next hfull =>
          have hnext : offset + Window.largestSize + windows * Window.largestSize =
              offset + (windows * Window.largestSize + Window.largestSize) := by
            omega
          rw [Attempt.outcome_bind, ih (by omega), hnext]
          by_cases hbound :
              found.length < offset + (windows * Window.largestSize + Window.largestSize)
          · have hpages (key : Record → Option Json) : (found.drop offset).filterMap key =
                ((found.drop offset).take Window.largestSize).filterMap key ++
                  (found.drop (offset + Window.largestSize)).filterMap key := by
              rw [← List.filterMap_append, ← List.drop_drop, List.take_append_drop]
            rw [if_pos hbound, if_pos hbound, hpages]
            rfl
          · rw [if_neg hbound, if_neg hbound]

theorem keysFrom_isOk {a : Archive} {m : Matcher} (hm : Matcher.ofCriteria c = .ok m)
    (hstart : offset ≤ ((a.collection s.collection).matching m).length)
    (hbound : ((a.collection s.collection).matching m).length <
      offset + windows * Window.largestSize) :
    ∃ keys, (keysFrom Archive.backend s c windows offset).outcome a = (.ok keys, a) :=
  ⟨_, (outcome_keysFrom hm hstart).trans (if_pos hbound)⟩

/-- The records that are found by a list of keys have one of them in the field of the link. -/
theorem accepts_belongingTo {link : ChildRef} {keys : List Json} {m : Matcher}
    (h : Matcher.ofCriteria (some (belongingTo link keys)) = .ok m) (record : Record) :
    m.accepts record =
      keys.any (Json.equalField (Matcher.fieldAt record (Text.split '.' link.field))) := by
  obtain ⟨filter, hfilter, hm⟩ := Criteria.ofCriteria_eq_ok h
  have hvalues : (belongingTo link keys).EqualsValues := by
    rw [belongingTo, Criteria.EqualsValues]
    nofun
  have hlevels : (belongingTo link keys).levels = 1 := by
    simp only [belongingTo, Criteria.levels]
  obtain ⟨m', hm', haccepts⟩ :=
    Criteria.ofFilterAt_toFilter 1 hfilter (by rw [hlevels]; decide) hvalues
  cases hm.symm.trans hm'
  rw [haccepts, belongingTo, Criteria.selects]
  rfl

end Steward

end Grove
