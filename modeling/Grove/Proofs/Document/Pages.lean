import Grove.Proofs.Document.Order

/-!
# Pages

A list that is too long for one answer is asked for page by page, and each page is a query of
its own. What makes the pages fit together is that every query sorts alike and that a page
starts where the one before it ends. The start is the number of the page times the size, and
both of them come from the caller, so it may lie beyond what an offset can be. It is then the
greatest offset there is, and not what is left of it after a carry, so the page is empty like
every page behind the last record (`cut_turned`).

Together the pages are all the records that match, in their order, and no query answers more
than a thousand (`pages_partition`).
-/

namespace Grove

namespace Paging

def turned (o : Paging) (page : Nat) : Paging := { o with page := some page }

theorem window_limit (o : Paging) :
    o.window.limit = match o.limit with
      | none | some 0 => Window.usualSize
      | some n => min n Window.largestSize := rfl

theorem window_limit_pos (o : Paging) : 0 < o.window.limit := by
  rw [window_limit]
  split
  · decide
  · decide
  · next n hn _ => exact Nat.lt_min.mpr ⟨Nat.pos_of_ne_zero hn, by decide⟩

theorem window_limit_le (o : Paging) : o.window.limit ≤ Window.largestSize := by
  rw [window_limit]
  split
  · decide
  · decide
  · exact Nat.min_le_right _ _

/-- An offset counts if it is not zero. Otherwise the page does, and the first page starts
with the first record. -/
theorem window_offset (o : Paging) :
    o.window.offset = if o.offset.getD 0 = 0 then
      min (o.page.getD 0 * o.window.limit) Text.maxUnsigned32 else o.offset.getD 0 := by
  obtain ⟨sort, limit, offset, page, fetch⟩ := o
  rcases offset with _ | _ | offset <;> rcases page with _ | page <;> simp [window]

theorem window_turned (o : Paging) (h : o.offset.getD 0 = 0) (page : Nat) :
    (o.turned page).window = ⟨o.window.limit, min (page * o.window.limit) Text.maxUnsigned32⟩ := by
  have hoffset := (o.turned page).window_offset
  rw [show (o.turned page).offset = o.offset from rfl, if_pos h] at hoffset
  exact congrArg (Window.mk o.window.limit) hoffset

end Paging

namespace Window

variable {α : Type}

theorem length_cut_le (w : Window) (xs : List α) : (w.cut xs).length ≤ w.limit :=
  List.length_take_le _ _

/-- A start beyond the offsets is as good as the last of them when there are no more records
than offsets: both are behind the last record. -/
theorem cut_turned {xs : List α} (h : xs.length ≤ Text.maxUnsigned32) (limit start : Nat) :
    (⟨limit, min start Text.maxUnsigned32⟩ : Window).cut xs = (xs.drop start).take limit := by
  rw [cut]
  rcases Nat.le_total start Text.maxUnsigned32 with hstart | hstart
  · rw [Nat.min_eq_left hstart]
  · rw [Nat.min_eq_right hstart, List.drop_of_length_le h,
      List.drop_of_length_le (Nat.le_trans h hstart)]

theorem flatMap_pages (xs : List α) (size pages : Nat) :
    ((List.range pages).flatMap fun page => (xs.drop (page * size)).take size) =
      xs.take (pages * size) := by
  induction pages with
  | zero => rw [Nat.zero_mul, List.take_zero, List.range_zero, List.flatMap_nil]
  | succ pages ih =>
      rw [List.range_succ, List.flatMap_append, ih, List.flatMap_singleton, Nat.succ_mul,
        List.take_add]

end Window

theorem Collection.length_matching_le (c : Collection) (m : Matcher) :
    (c.matching m).length ≤ c.rows.length := by
  have hle := List.length_filter_le (fun r => m.accepts r) c.records
  rwa [records, List.length_map] at hle

/-- What matches is what is on one of the pages that can be asked for. -/
theorem Collection.exists_page_iff {c : Collection} {m : Matcher} {o : Paging} {record : Record}
    (hsize : c.rows.length ≤ Text.maxUnsigned32) (hoffset : o.offset.getD 0 = 0) :
    (∃ page ≤ Text.maxUnsigned32, record ∈ c.select m (o.turned page)) ↔
      record ∈ c.matching m := by
  have hsorted := Record.sorted_sortBy o.sort (c.matching m)
  have hfew : (Record.sortBy o.sort (c.matching m)).length ≤ Text.maxUnsigned32 := by
    rw [hsorted.perm.length_eq]
    exact Nat.le_trans (c.length_matching_le m) hsize
  have hpage (page : Nat) : c.select m (o.turned page) =
      ((Record.sortBy o.sort (c.matching m)).drop (page * o.window.limit)).take o.window.limit := by
    rw [select, o.window_turned hoffset, show (o.turned page).sort = o.sort from rfl,
      Window.cut_turned hfew]
  constructor
  · rintro ⟨page, -, hrecord⟩
    rw [hpage] at hrecord
    exact hsorted.perm.mem_iff.mp (List.mem_of_mem_drop (List.mem_of_mem_take hrecord))
  · intro hrecord
    -- a page for each record would be enough
    have hall := Window.flatMap_pages (Record.sortBy o.sort (c.matching m)) o.window.limit
      (Record.sortBy o.sort (c.matching m)).length
    rw [List.take_of_length_le (Nat.le_mul_of_pos_right _ o.window_limit_pos)] at hall
    have hmem := hsorted.perm.mem_iff.mpr hrecord
    rw [← hall] at hmem
    obtain ⟨page, hfirst, hrecord⟩ := List.mem_flatMap.mp hmem
    refine ⟨page, ?_, (hpage page).symm ▸ hrecord⟩
    exact Nat.le_trans (Nat.le_of_lt (List.mem_range.mp hfirst)) hfew

/-- The pages of a list are together the records that match, in the order that is asked for
and each of them once, as soon as there are pages enough, and the pages that can be asked for
are enough. There are as many records as are counted, and in the order in which they were
added the first is the one that is found. Whatever the options are, a query answers no more
than a thousand records, and its offset is what the options ask for or else the greatest
offset. -/
theorem pages_partition {s : DocumentStore} {a : Archive} {c : Option Criteria} {m : Matcher}
    (hm : Matcher.ofCriteria c = .ok m)
    (hsize : (a.collection s.collection).rows.length ≤ Text.maxUnsigned32) {o : Paging}
    (hoffset : o.offset.getD 0 = 0) :
    (o.window.limit = match o.limit with
      | none | some 0 => 50
      | some n => min n 1000) ∧
    (∃ (sorted : List Record) (pages : Nat → List Record),
      Record.Sorted o.sort ((a.collection s.collection).matching m) sorted ∧
      (∀ page, (s.query c (o.turned page)).outcome a = (.ok (pages page), a)) ∧
      (∀ enough, sorted.length ≤ enough * o.window.limit →
        (List.range enough).flatMap pages = sorted) ∧
      sorted.length ≤ (Text.maxUnsigned32 + 1) * o.window.limit ∧
      (s.count c).outcome a = (.ok sorted.length, a) ∧
      (o.sort = [] → (s.find c).outcome a = (.ok sorted.head?, a))) ∧
    ∀ q : Paging,
      (∃ found, (s.query c q).outcome a = (.ok found, a) ∧ found.length ≤ 1000) ∧
      (q.window.offset = if q.offset.getD 0 = 0 then
        min (q.page.getD 0 * q.window.limit) Text.maxUnsigned32 else q.offset.getD 0) ∧
      (q.offset.getD 0 ≤ Text.maxUnsigned32 → q.window.offset ≤ Text.maxUnsigned32) := by
  have hquery (q : Paging) : (s.query c q).outcome a =
      (.ok (q.window.cut (Record.sortBy q.sort ((a.collection s.collection).matching m))), a) := by
    rw [DocumentStore.outcome_query, hm]
    rfl
  have hsorted := Record.sorted_sortBy o.sort ((a.collection s.collection).matching m)
  have hfew : (Record.sortBy o.sort ((a.collection s.collection).matching m)).length ≤
      Text.maxUnsigned32 := by
    rw [hsorted.perm.length_eq]
    exact Nat.le_trans ((a.collection s.collection).length_matching_le m) hsize
  refine ⟨o.window_limit, ⟨_, _, hsorted, fun page => hquery (o.turned page), ?_, ?_, ?_, ?_⟩, ?_⟩
  · intro enough henough
    simp only [o.window_turned hoffset, Window.cut_turned hfew,
      show ∀ page, (o.turned page).sort = o.sort from fun _ => rfl]
    rw [Window.flatMap_pages, List.take_of_length_le henough]
  · calc _ ≤ Text.maxUnsigned32 := hfew
      _ ≤ Text.maxUnsigned32 + 1 := Nat.le_succ _
      _ ≤ (Text.maxUnsigned32 + 1) * o.window.limit :=
        Nat.le_mul_of_pos_right _ o.window_limit_pos
  · rw [DocumentStore.outcome_count, hm, hsorted.perm.length_eq]
    rfl
  · intro hsort
    rw [DocumentStore.outcome_find, hm, hsort, Record.sortBy, if_pos List.isEmpty_nil,
      Collection.matching, List.head?_filter]
    rfl
  · intro q
    refine ⟨⟨_, hquery q, ?_⟩, q.window_offset, fun hrange => ?_⟩
    · exact Nat.le_trans (Window.length_cut_le _ _) q.window_limit_le
    · rw [q.window_offset]
      split
      · exact Nat.min_le_right _ _
      · exact hrange

/-- On pages of three, eight records of every kind are on the first three. -/
theorem pages_partition_medley :
    let o : Paging := { sort := [⟨"v", true⟩], limit := some 3 }
    Matcher.ofCriteria none = .ok (.all []) ∧ (medleyArchive.collection "medley").rows.length = 8 ∧
    o.offset.getD 0 = 0 ∧
    ∃ (sorted : List Record) (pages : Nat → List Record),
      Record.Sorted o.sort medleyRecords sorted ∧
      (∀ page, (medley.query none (o.turned page)).outcome medleyArchive =
        (.ok (pages page), medleyArchive)) ∧
      pages 0 ++ pages 1 ++ pages 2 = sorted ∧
      (medley.count none).outcome medleyArchive = (.ok 8, medleyArchive) := by
  intro o
  have hm : Matcher.ofCriteria none = .ok (.all []) := rfl
  have hrows : (medleyArchive.collection "medley").rows.length = 8 := rfl
  obtain ⟨-, ⟨sorted, pages, hsorted, hpages, henough, -, hcount, -⟩, -⟩ :=
    pages_partition (s := medley) (a := medleyArchive) (o := o) hm
      (by rw [show medley.collection = "medley" from rfl, hrows]; decide) rfl
  have height : sorted.length = 8 := hsorted.perm.length_eq
  have hthree := henough 3 (by rw [height]; decide)
  rw [height] at hcount
  refine ⟨hm, hrows, rfl, sorted, pages, hsorted, hpages, ?_, hcount⟩
  rw [← hthree]
  simp [List.range_succ]

end Grove
