import Grove.Proofs.Document.Holding

/-!
# The order of documents is one

Two values of one kind are compared by what they are, two of different kinds by their kinds,
and lists and objects not at all. That this makes up one order over all values, in which
nothing goes round in circles, is not seen from the two ways of comparing: where one of them
has nothing to say the other steps in. But every value has a place, made up of its kind, a
number and a text, and a comparison of values is one of their places from left to right
(`Json.orderFields_eq`). Orders of this form are total preorders, and so are the order turned
around and the order by one key after another.

Sorting by a total preorder is well defined: no record gets lost, each stands before those
that are greater, and records that are alike stay in the order in which they came
(`sorted_sortBy`). What a query takes its window from is sorted in this sense
(`query_sorts_stably`).
-/

namespace Grove

/-! ## Values -/

namespace Json

def orderNumber : Option Json → Int
  | some (.bool b) => b.toInt
  | some (.number n) => n.toDouble.scaled
  | _ => 0

def orderText : Option Json → String
  | some (.string s) => s
  | _ => ""

/-- Values are compared by their kinds, and those of one kind by their number or text. -/
theorem orderFields_eq :
    orderFields = compareLex (compareOn kindRank)
      (compareLex (compareOn orderNumber) (compareOn orderText)) := by
  funext a b
  rcases a with _ | a <;> rcases b with _ | b
  · rfl
  · cases b <;> rfl
  · cases a <;> rfl
  · cases a <;> cases b <;> try rfl
    case bool.bool a b => cases a <;> cases b <;> rfl
    case number.number m n =>
      simp [orderFields, order?, compareLex, compareOn, kindRank, orderNumber, orderText,
        Number.cmp, Double.cmp]

end Json

instance : Std.TransCmp Json.orderFields := by
  rw [Json.orderFields_eq]
  infer_instance

/-! ## Records -/

namespace Record

instance (key : OrderKey) : Std.TransCmp (compareBy key) := by
  have hfields : Std.TransCmp fun a b : Record =>
      Json.orderFields (a.get? key.field) (b.get? key.field) :=
    { eq_swap := Std.OrientedCmp.eq_swap, isLE_trans := Std.TransCmp.isLE_trans }
  cases hdescending : key.descending with
  | false =>
      have hsame : compareBy key = fun a b =>
          Json.orderFields (a.get? key.field) (b.get? key.field) := by
        funext a b
        rw [compareBy, hdescending]
        rfl
      rwa [hsame]
  | true =>
      have hturned : compareBy key = fun a b =>
          Json.orderFields (b.get? key.field) (a.get? key.field) := by
        funext a b
        rw [compareBy, hdescending]
        exact Std.OrientedCmp.eq_swap.symm
      rw [hturned]
      exact Std.TransCmp.opposite

instance (keys : List OrderKey) : Std.TransCmp (compareByAll keys) := by
  induction keys with
  | nil => exact { eq_swap := rfl, isLE_trans := fun _ _ => rfl }
  | cons key keys ih =>
      have hlex : compareByAll (key :: keys) = compareLex (compareBy key) (compareByAll keys) := rfl
      rw [hlex]
      infer_instance

/-- The records are those that came, in the order of the keys, and those that no key tells
apart are in the order in which they came. -/
structure Sorted (keys : List OrderKey) (came sorted : List Record) : Prop where
  perm : sorted.Perm came
  ordered : sorted.Pairwise fun r later => compareByAll keys r later ≠ .gt
  stable : ∀ r, sorted.filter (fun t => compareByAll keys r t == .eq) =
    came.filter fun t => compareByAll keys r t == .eq

variable (keys : List OrderKey)

theorem notGreater_iff {r t : Record} :
    (compareByAll keys r t != .gt) = true ↔ (compareByAll keys r t).isLE = true := by
  cases compareByAll keys r t <;> decide

theorem notGreater_trans (r t u : Record) (hrt : (compareByAll keys r t != .gt) = true)
    (htu : (compareByAll keys t u != .gt) = true) : (compareByAll keys r u != .gt) = true := by
  rw [notGreater_iff] at hrt htu ⊢
  exact Std.TransCmp.isLE_trans hrt htu

theorem notGreater_total (r t : Record) :
    ((compareByAll keys r t != .gt) || (compareByAll keys t r != .gt)) = true := by
  have hswap : compareByAll keys t r = (compareByAll keys r t).swap := Std.OrientedCmp.eq_swap
  rw [hswap]
  cases compareByAll keys r t <;> rfl

theorem ordered_alike (r : Record) (records : List Record) :
    (records.filter fun t => compareByAll keys r t == .eq).Pairwise
      fun t u => (compareByAll keys t u != .gt) = true := by
  refine List.pairwise_filter.mpr (List.pairwise_of_forall_mem_list fun t _ u _ ht hu => ?_)
  have htu : compareByAll keys t u = .eq :=
    Std.TransCmp.eq_trans (Std.OrientedCmp.eq_comm.mp (eq_of_beq ht)) (eq_of_beq hu)
  rw [htu]
  rfl

/-- Sorting keeps the records that are alike as a sublist, and there are no more of them
afterwards than before. -/
theorem sorted_mergeSort (records : List Record) :
    Sorted keys records (records.mergeSort fun a b => compareByAll keys a b != .gt) := by
  have hperm := records.mergeSort_perm fun a b => compareByAll keys a b != .gt
  refine ⟨hperm, ?_, fun r => ?_⟩
  · refine (List.pairwise_mergeSort (notGreater_trans keys) (notGreater_total keys) records).imp ?_
    intro r later hle
    simpa using hle
  · have hsublist := List.sublist_mergeSort (notGreater_trans keys) (notGreater_total keys)
      (ordered_alike keys r records) List.filter_sublist
    have hkept := hsublist.filter fun t => compareByAll keys r t == .eq
    rw [List.filter_filter, List.filter_congr fun t _ => Bool.and_self _] at hkept
    exact (hkept.eq_of_length (hperm.filter _).length_eq.symm).symm

theorem sorted_sortBy (records : List Record) : Sorted keys records (sortBy keys records) := by
  rw [sortBy]
  split
  · next hnone =>
      rw [List.isEmpty_iff.mp hnone]
      exact ⟨List.Perm.refl _, List.pairwise_of_forall_mem_list fun _ _ _ _ => nofun, fun _ => rfl⟩
  · exact sorted_mergeSort keys records

end Record

/-- Comparing records is a total preorder, whatever they hold and whatever the keys are. A
query takes its window from the records that match in that order, and those that are alike
are in the order in which they were added. -/
theorem query_sorts_stably (keys : List OrderKey) :
    (∀ r, Record.compareByAll keys r r = .eq) ∧
    (∀ r t, Record.compareByAll keys t r = (Record.compareByAll keys r t).swap) ∧
    (∀ r t u, (Record.compareByAll keys r t).isLE = true →
      (Record.compareByAll keys t u).isLE = true → (Record.compareByAll keys r u).isLE = true) ∧
    ∀ (s : DocumentStore) (a : Archive) (c : Option Criteria) (m : Matcher),
      Matcher.ofCriteria c = .ok m →
      ∃ sorted, Record.Sorted keys ((a.collection s.collection).matching m) sorted ∧
        ∀ o : Paging, o.sort = keys →
          (s.query c o).outcome a = (.ok (o.window.cut sorted), a) := by
  refine ⟨fun _ => Std.ReflCmp.compare_self, fun _ _ => Std.OrientedCmp.eq_swap,
    fun _ _ _ => Std.TransCmp.isLE_trans, fun s a c m hm => ?_⟩
  refine ⟨_, Record.sorted_sortBy keys _, fun o ho => ?_⟩
  rw [DocumentStore.outcome_query, hm, ← ho]
  rfl

def medley : DocumentStore := ⟨"medley", { primaryKey := "no", assigns := false }⟩

/-- Some of the values are alike: an object and a list, an integer and a float, nothing and
null. -/
def medleyRecords : List Record := [
  ⟨[("no", .ofInt 1), ("v", .object [])]⟩, ⟨[("no", .ofInt 2)]⟩,
  ⟨[("no", .ofInt 3), ("v", .ofInt 2)]⟩, ⟨[("no", .ofInt 4), ("v", .string "b")]⟩,
  ⟨[("no", .ofInt 5), ("v", .number (.float ⟨false, 0x10000000000000, 1023, by decide⟩))]⟩,
  ⟨[("no", .ofInt 6), ("v", .array [])]⟩, ⟨[("no", .ofInt 7), ("v", .bool true)]⟩,
  ⟨[("no", .ofInt 8), ("v", .null)]⟩]

def medleyArchive : Archive where
  collections := [("medley", .ofRows (medleyRecords.mapIdx fun i r => (i, r)))]
  supply := { randomBits := fun _ => 0, clock := fun _ => default }

/-- The greatest values come first, and among those that are alike the later numbers. -/
theorem query_sorts_stably_medley :
    let keys : List OrderKey := [⟨"v", true⟩, ⟨"no", true⟩]
    Matcher.ofCriteria none = .ok (.all []) ∧
    ∃ sorted, Record.Sorted keys medleyRecords sorted ∧
      (medley.query none { sort := keys }).outcome medleyArchive = (.ok sorted, medleyArchive) := by
  intro keys
  have hm : Matcher.ofCriteria none = .ok (.all []) := rfl
  have hmatching : (medleyArchive.collection "medley").matching (.all []) = medleyRecords := rfl
  obtain ⟨sorted, hsorted, hquery⟩ :=
    (query_sorts_stably keys).2.2.2 medley medleyArchive none (.all []) hm
  rw [show medley.collection = "medley" from rfl, hmatching] at hsorted
  have hwhole : (⟨50, 0⟩ : Window).cut sorted = sorted :=
    List.take_of_length_le (by rw [List.drop_zero, hsorted.perm.length_eq]; decide)
  exact ⟨hm, sorted, hsorted, hwhole ▸ hquery { sort := keys } rfl⟩

end Grove
