import Mathlib.Data.List.Induction
import Mathlib.Data.List.Nodup
import Grove.Document.Collection
import Grove.Document.Ledger

/-!
# Tables that follow their collections

A table is kept in the order of its numbers, and a collection in the order in which its
records came. The two orders are the same as long as a new record gets a number above all
others (`Collection.Numbered`), which every operation keeps true, and so does starting
again after the last row that is left, although numbers are then given a second time.

On a collection numbered like that each write has the effect on the rows that the operation
has on the records: a put at a new number goes to the end, puts at numbers in use replace
the rows where they are, and a deletion takes away just the rows that match.
-/

namespace Grove

/-- What is written of the record is read as the record. -/
def Record.ReadsBack (r : Record) : Prop := Ledger.readRecord? r.compact = some r

/-- The rows are in the order of their numbers, and the next number is above them all. -/
structure Collection.Numbered (c : Collection) : Prop where
  ascending : c.rows.Pairwise fun row later => row.1 < later.1
  lt_next : ∀ row ∈ c.rows, row.1 < c.next

namespace Ledger

variable {seq : Nat} {text : String} {row : Nat × String} {j : Ledger}

def written (row : Nat × Record) : Nat × String := (row.1, row.2.compact)

theorem put_cons_of_lt (h : row.1 < seq) : put seq text (row :: j) = row :: put seq text j := by
  rw [put, if_neg (by omega), if_neg (by omega)]

theorem put_of_forall_lt (h : ∀ row ∈ j, row.1 < seq) : put seq text j = j ++ [(seq, text)] := by
  induction j with
  | nil => rfl
  | cons row j ih =>
      rw [List.forall_mem_cons] at h
      rw [put_cons_of_lt h.1, ih h.2, List.cons_append]

theorem putAll_cons_of_forall_lt {puts : List (Nat × Record)} (h : ∀ p ∈ puts, row.1 < p.1) :
    putAll (row :: j) puts = row :: putAll j puts := by
  induction puts generalizing j with
  | nil => rfl
  | cons p puts ih =>
      rw [List.forall_mem_cons] at h
      simp only [putAll, List.foldl_cons] at ih ⊢
      rw [put_cons_of_lt h.1]
      exact ih h.2

theorem records?_written {rows : List (Nat × Record)} (h : ∀ row ∈ rows, row.2.ReadsBack) :
    records? (rows.map written) = some rows := by
  induction rows with
  | nil => rfl
  | cons row rows ih =>
      rw [List.forall_mem_cons] at h
      have hrow : (readRecord? row.2.compact).map (row.1, ·) = some row := by rw [h.1]; rfl
      have hrest : (rows.map written).mapM
          (fun row => (readRecord? row.2).map (row.1, ·)) = some rows := ih h.2
      simp only [records?, List.map_cons, List.mapM_cons, written, hrow, hrest]
      rfl

end Ledger

namespace Collection

variable {c : Collection}

/-! ## Numbers -/

theorem numbered_empty : ({} : Collection).Numbered := ⟨List.Pairwise.nil, nofun⟩

theorem Numbered.push (h : c.Numbered) (r : Record) : (c.push r).Numbered where
  ascending := by
    refine List.pairwise_append.mpr ⟨h.ascending, List.pairwise_singleton _ _, ?_⟩
    intro row hrow last hlast
    rw [List.mem_singleton.mp hlast]
    exact h.lt_next row hrow
  lt_next row hrow := by
    rcases List.mem_append.mp hrow with hrow | hrow
    · exact Nat.lt_succ_of_lt (h.lt_next row hrow)
    · rw [List.mem_singleton.mp hrow]
      exact Nat.lt_succ_self c.next

theorem rows_update (c : Collection) (m : Matcher) (changes : Record) :
    (c.update m changes).rows.map (·.1) = c.rows.map (·.1) := by
  rw [update, List.map_map]
  refine List.map_congr_left fun row _ => ?_
  simp only [Function.comp_apply]
  split <;> rfl

theorem Numbered.of_numbers {d : Collection} (h : c.Numbered) (hnext : d.next = c.next)
    (hrows : (d.rows.map (·.1)).Sublist (c.rows.map (·.1))) : d.Numbered where
  ascending := by
    have hascending := List.pairwise_map.mpr h.ascending
    exact List.pairwise_map.mp (hascending.sublist hrows)
  lt_next row hrow := by
    obtain ⟨old, hold, heq⟩ := List.mem_map.mp (hrows.subset (List.mem_map_of_mem hrow))
    rw [hnext, ← heq]
    exact h.lt_next old hold

theorem Numbered.update (h : c.Numbered) (m : Matcher) (changes : Record) :
    (c.update m changes).Numbered :=
  h.of_numbers rfl (c.rows_update m changes ▸ List.Sublist.refl _)

theorem Numbered.remove (h : c.Numbered) (m : Matcher) : (c.remove m).Numbered :=
  h.of_numbers rfl (List.filter_sublist.map _)

/-- Starting again after the last row, the next number is above all rows. -/
theorem Numbered.reopened (h : c.Numbered) : (ofRows c.rows).Numbered where
  ascending := h.ascending
  lt_next row hrow := by
    have hascending := h.ascending
    simp only [ofRows] at hrow ⊢
    cases hrows : c.rows using List.reverseRecOn with
    | nil => rw [hrows] at hrow; cases hrow
    | append_singleton rows last =>
        rw [hrows] at hrow hascending
        rw [List.getLast?_concat, Option.map_some, Option.getD_some]
        rcases List.mem_append.mp hrow with hrow | hrow
        · have hlt := (List.pairwise_append.mp hascending).2.2 row hrow last
            (List.mem_singleton_self last)
          omega
        · rw [List.mem_singleton.mp hrow]
          exact Nat.lt_succ_self last.1

/-! ## Writes -/

theorem put_push (h : c.Numbered) (r : Record) :
    Ledger.putAll (c.rows.map Ledger.written) [(c.next, r)] =
      (c.push r).rows.map Ledger.written := by
  have hlt : ∀ row ∈ c.rows.map Ledger.written, row.1 < c.next :=
    List.forall_mem_map.mpr h.lt_next
  rw [push, List.map_append, Ledger.putAll, List.foldl_cons, List.foldl_nil,
    Ledger.put_of_forall_lt hlt]
  rfl

theorem put_changed (h : c.Numbered) (m : Matcher) (changes : Record) :
    Ledger.putAll (c.rows.map Ledger.written) (c.changed m changes) =
      (c.update m changes).rows.map Ledger.written := by
  have hascending := h.ascending
  simp only [changed, update]
  generalize c.rows = rows at hascending
  induction rows with
  | nil => rfl
  | cons row rows ih =>
      obtain ⟨hlt, hascending⟩ := List.pairwise_cons.mp hascending
      -- what is put further down has numbers above this row's, so this row stays in front
      have hputs : ∀ p ∈ (rows.filter fun row => m.accepts row.2).map
          fun row => (row.1, row.2.update changes), row.1 < p.1 :=
        List.forall_mem_map.mpr fun later hlater => hlt later (List.mem_of_mem_filter hlater)
      by_cases haccepts : m.accepts row.2 = true
      · rw [List.filter_cons, if_pos haccepts, List.map_cons, List.map_cons, List.map_cons,
          List.map_cons, if_pos haccepts, ← ih hascending]
        rw [Ledger.putAll, List.foldl_cons, Ledger.written, Ledger.put, if_pos rfl]
        exact Ledger.putAll_cons_of_forall_lt hputs
      · rw [List.filter_cons, if_neg haccepts, List.map_cons, List.map_cons, List.map_cons,
          if_neg haccepts, ← ih hascending]
        exact Ledger.putAll_cons_of_forall_lt hputs

/-- A number names one row, so the row of a doomed number is one that matches. -/
theorem Numbered.mem_doomed_iff (h : c.Numbered) {m : Matcher} {row : Nat × Record}
    (hrow : row ∈ c.rows) : row.1 ∈ c.doomed m ↔ m.accepts row.2 = true := by
  have hdistinct : (c.rows.map (·.1)).Nodup :=
    (List.pairwise_map.mpr h.ascending).imp Nat.ne_of_lt
  constructor
  · intro hmem
    obtain ⟨other, hother, heq⟩ := List.mem_map.mp hmem
    obtain ⟨hother, haccepts⟩ := List.mem_filter.mp hother
    rwa [← List.inj_on_of_nodup_map hdistinct hother hrow heq]
  · intro haccepts
    exact List.mem_map_of_mem (List.mem_filter.mpr ⟨hrow, haccepts⟩)

theorem delete_doomed (h : c.Numbered) (m : Matcher) :
    Ledger.deleteAll (c.rows.map Ledger.written) (c.doomed m) =
      (c.remove m).rows.map Ledger.written := by
  rw [Ledger.deleteAll, remove, List.filter_map]
  refine congrArg _ (List.filter_congr fun row hrow => ?_)
  have hdoomed := h.mem_doomed_iff (m := m) hrow
  simp only [Function.comp_apply, Ledger.written]
  rw [Bool.eq_iff_iff]
  simp [hdoomed]

end Collection

end Grove
