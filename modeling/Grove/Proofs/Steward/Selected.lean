import Grove.Proofs.Document.Sound
import Grove.Proofs.Steward.Embedded
import Grove.Proofs.Steward.Keys

/-!
# Every key once

The keys that a removal goes by are read page by page, and what ends the reading is a page
that is not full. So the reading ends only behind the last of the records: if they fill
their pages, one more page is read, and it is empty. What is read is the key of every record
that matches, in the order of the records, and in a store that came about by its own
commands no key is read twice (`every_key_selected`).
-/

namespace Grove

namespace Collection

variable {d : Collection} {keys : KeyPolicy} {m : Matcher}

theorem mem_records_of_matching {r : Record} (h : r ∈ d.matching m) : r ∈ d.records :=
  List.mem_of_mem_filter h

/-- Where every record has a key, the fields that are read are the keys. -/
theorem filterMap_matching (h : ∀ r ∈ d.records, (keys.keyOf r).isNull = false) :
    (d.matching m).filterMap (·.get? keys.primaryKey) = (d.matching m).map keys.keyOf := by
  rw [← List.filterMap_eq_map]
  refine List.filterMap_congr fun r hr => ?_
  have hkey := h r (mem_records_of_matching hr)
  rw [KeyPolicy.keyOf] at hkey
  rw [Function.comp_apply, KeyPolicy.keyOf]
  cases hget : r.get? keys.primaryKey with
  | none => rw [hget] at hkey; cases hkey
  | some key => rfl

theorem Sound.pairwise_matching (h : d.Sound keys) (m : Matcher) :
    ((d.matching m).map keys.keyOf).Pairwise fun key later => key.same later = false :=
  List.pairwise_map.mpr (h.distinct.sublist List.filter_sublist)

end Collection

namespace Steward

variable {s : DocumentStore} {c : Option Criteria} {a : Archive}

theorem outcome_selectedKeys {m : Matcher} (hm : Matcher.ofCriteria c = .ok m) :
    (selectedKeys Archive.backend s c).outcome a =
      if ((a.collection s.collection).matching m).length < windowsOfRange * Window.largestSize then
        (.ok (((a.collection s.collection).matching m).filterMap (·.get? s.keys.primaryKey)), a)
      else (.error offsetsUsedUp, a) := by
  rw [selectedKeys, outcome_keysFrom hm (Nat.zero_le _), Nat.zero_add, List.drop_zero]

theorem outcome_selectedKeys_of_error {f : Failure} (hf : Matcher.ofCriteria c = .error f) :
    (selectedKeys Archive.backend s c).outcome a = (.error f, a) := by
  have hquery (o : Paging) : (Archive.backend.query s c o).outcome a = (.error f, a) := by
    rw [Archive.backend, DocumentStore.outcome_query, hf]
    rfl
  rw [selectedKeys, windowsOfRange, keysFrom, Attempt.outcome_bind, hquery]

/-- The keys of the records that match are all read, each once and in the order of the records,
if there are fewer of these than the offsets of pages can reach; otherwise the reading fails.
In a store that came about by its commands they are keys, and no two of them are the same. -/
theorem every_key_selected (s : DocumentStore) (c : Option Criteria) (a : Archive) :
    (∀ f, Matcher.ofCriteria c = .error f →
      (selectedKeys Archive.backend s c).outcome a = (.error f, a)) ∧
    ∀ m, Matcher.ofCriteria c = .ok m →
      let found := (a.collection s.collection).matching m
      (found.length < 0x100000000 - Window.largestSize →
        (selectedKeys Archive.backend s c).outcome a =
          (.ok (found.filterMap (·.get? s.keys.primaryKey)), a)) ∧
      ((selectedKeys Archive.backend s c).outcome a = (.error offsetsUsedUp, a) ↔
        windowsOfRange * Window.largestSize ≤ found.length) ∧
      ∀ stores, Archive.OneKey stores → Archive.Reached stores a → s ∈ stores →
        found.filterMap (·.get? s.keys.primaryKey) = found.map s.keys.keyOf ∧
        (found.map s.keys.keyOf).Pairwise (fun key later => key.same later = false) ∧
        ∀ key ∈ found.map s.keys.keyOf, key.isNull = false := by
  refine ⟨fun f => outcome_selectedKeys_of_error, fun m hm => ?_⟩
  intro found
  rw [outcome_selectedKeys hm]
  refine ⟨fun hfew => if_pos (hfew.trans (by decide)), ?_, fun stores hkeys hreached hs => ?_⟩
  · constructor
    · intro h
      by_contra hfew
      rw [if_pos (Nat.lt_of_not_le hfew)] at h
      cases h
    · exact fun hmany => if_neg (Nat.not_lt_of_le hmany)
  · have hsound : (a.collection s.collection).Sound s.keys :=
      (Archive.sound_of_reached hkeys hreached s hs).collection
    refine ⟨Collection.filterMap_matching hsound.keyed, hsound.pairwise_matching m, ?_⟩
    exact List.forall_mem_map.mpr fun r hr => hsound.keyed r (Collection.mem_records_of_matching hr)

def numbered : DocumentStore := ⟨"tasks", { primaryKey := "n", assigns := false }⟩

theorem matching_crowded (tasks : Nat) :
    (((crowded tasks).collection numbered.collection).matching (.all [])) =
      (List.range tasks).map fun i => ⟨[("n", .ofInt i), ("projectsId", .string "p1")]⟩ := by
  have hall : ((crowded tasks).collection numbered.collection).matching (.all []) =
      ((crowded tasks).collection numbered.collection).records :=
    List.filter_eq_self.mpr fun _ _ => rfl
  have hrows : ((crowded tasks).collection numbered.collection).rows =
      (List.range tasks).map fun i =>
        (i, ⟨[("n", .ofInt i), ("projectsId", .string "p1")]⟩) := rfl
  rw [hall, Collection.records, hrows, List.map_map]
  rfl

/-- Five tasks come, one of them with a number that is taken, and one of the others goes. -/
def numberedCommands : List Command :=
  [.add ⟨[("n", .ofInt 2)]⟩, .add ⟨[("n", .ofInt 1)]⟩, .add ⟨[("n", .ofInt 2)]⟩,
    .add ⟨[("n", .string "1")]⟩, .removeByKey (.string "1"), .add ⟨[("n", .ofInt 3)]⟩]

def numberedTasks : Archive :=
  (Archive.inMemory [numbered] flagSupply).performAll numbered numberedCommands

theorem reached_numberedTasks : Archive.Reached [numbered] numberedTasks :=
  (Archive.Reached.inMemory flagSupply).performAll (List.mem_singleton_self _) numberedCommands

/-- Two thousand tasks fill two pages and are all read. Of tasks that came and went each number
that is left is read once. -/
theorem every_key_selected_full :
    let unlisted : Criteria := .compare .isIn "n" .null
    (selectedKeys Archive.backend numbered none).outcome (crowded 2000) =
      (.ok ((List.range 2000).map fun i : Nat => .ofInt i), crowded 2000) ∧
    (selectedKeys Archive.backend numbered (some unlisted)).outcome (crowded 2000) =
      (.error (.malformedCriteria "in requires a list value"), crowded 2000) ∧
    Archive.OneKey [numbered] ∧ Archive.Reached [numbered] numberedTasks ∧
    numbered ∈ [numbered] ∧
    (selectedKeys Archive.backend numbered none).outcome numberedTasks =
      (.ok [.ofInt 2, .ofInt 1, .ofInt 3], numberedTasks) ∧
    ([.ofInt 2, .ofInt 1, .ofInt 3] : List Json).Pairwise fun key later =>
      key.same later = false := by
  intro unlisted
  have hall : Matcher.ofCriteria none = .ok (.all []) := rfl
  have hkeys : Archive.OneKey [numbered] := Archive.oneKey_singleton numbered
  have hnumbered : numbered ∈ [numbered] := List.mem_singleton_self _
  obtain ⟨-, htasks⟩ := every_key_selected numbered none (crowded 2000)
  obtain ⟨hread, -⟩ := htasks _ hall
  obtain ⟨hinvalid, -⟩ := every_key_selected numbered (some unlisted) (crowded 2000)
  obtain ⟨-, hleft⟩ := every_key_selected numbered none numberedTasks
  obtain ⟨hselected, -, hreached⟩ := hleft _ hall
  obtain ⟨hmap, hpairwise, -⟩ := hreached [numbered] hkeys reached_numberedTasks hnumbered
  have hkeysLeft : ((numberedTasks.collection numbered.collection).matching (.all [])).map
      numbered.keys.keyOf = [.ofInt 2, .ofInt 1, .ofInt 3] := rfl
  refine ⟨?_, hinvalid _ rfl, hkeys, reached_numberedTasks, hnumbered, ?_, ?_⟩
  · have hlength : ((List.range 2000).map fun i : Nat =>
        (⟨[("n", .ofInt i), ("projectsId", .string "p1")]⟩ : Record)).length = 2000 := by
      rw [List.length_map, List.length_range]
    rw [matching_crowded] at hread
    rw [hread (by rw [hlength]; decide), List.filterMap_map, ← List.filterMap_eq_map]
    rfl
  · rw [hselected (by decide), hmap]
    exact congrArg (fun keys => (Except.ok keys, numberedTasks)) hkeysLeft
  · exact hkeysLeft ▸ hpairwise

end Steward

end Grove
