import Mathlib.Data.List.Basic

/-!
# Arrangements

Where an order does not tell all items apart, a list can be put in order in more than one way, and
each of these is an arrangement of it. How many items from the front on are the same ones in all
arrangements is said by the order: the list is parted there, since what comes later begins with an
item that just so many are less than (`Arranged.take_perm`). At any other place two items that are
alike stand side by side, and they can be exchanged (`Arranged.exists_alike`, `Arranged.exchanged`).
-/

namespace Grove

variable {β : Type} {cmp : β → β → Ordering} {items l : List β} {n : Nat}

/-- The items one after the other, in order. -/
structure Arranged (cmp : β → β → Ordering) (items l : List β) : Prop where
  perm : l.Perm items
  ordered : l.Pairwise fun a b => (cmp a b).isLE = true

/-- There are no items beyond so many, or one of them is greater than just so many. -/
def Parted (cmp : β → β → Ordering) (items : List β) (n : Nat) : Prop :=
  items.length ≤ n ∨ ∃ first ∈ items, (items.filter fun a => cmp a first == .lt).length = n

/-- The list with the items at a place and behind it exchanged, where they are alike. -/
def exchanged (cmp : β → β → Ordering) (place : Nat) (l : List β) : List β :=
  match l.drop place with
  | a :: b :: back => if (cmp b a).isLE then l.take place ++ b :: a :: back else l
  | _ => l

/-- A kind that goes with each item to the ones before it is a part from the front on. -/
theorem filter_eq_takeWhile {p : β → Bool} (h : l.Pairwise fun a b => p b = true → p a = true) :
    l.filter p = l.takeWhile p := by
  induction l with
  | nil => rfl
  | cons a l ih =>
      obtain ⟨hfirst, hrest⟩ := List.pairwise_cons.mp h
      rw [List.filter_cons, List.takeWhile_cons, ih hrest]
      split
      · rfl
      · next ha =>
          rw [← ih hrest]
          exact List.filter_eq_nil_iff.mpr fun b hb hpb => ha (hfirst b hb hpb)

/-- Items side by side that are alike may be exchanged, and nothing else is changed. -/
theorem Arranged.exchanged (h : Arranged cmp items l) (place : Nat) :
    Arranged cmp items (exchanged cmp place l) := by
  rw [Grove.exchanged]
  split
  · next a b back hback =>
      split
      · next hba =>
          have hsplit : l = l.take place ++ a :: b :: back := by
            rw [← hback, List.take_append_drop]
          obtain ⟨hperm, hordered⟩ := h
          generalize l.take place = front at hsplit
          subst hsplit
          rw [List.pairwise_append, List.pairwise_cons, List.pairwise_cons] at hordered
          obtain ⟨hfront, ⟨ha, hb, hrest⟩, hacross⟩ := hordered
          rw [List.forall_mem_cons] at ha
          refine ⟨((List.Perm.swap a b back).append_left front).trans hperm, ?_⟩
          rw [List.pairwise_append, List.pairwise_cons, List.pairwise_cons]
          refine ⟨hfront, ⟨List.forall_mem_cons.mpr ⟨hba, hb⟩, ha.2, hrest⟩, fun c hc d hd => ?_⟩
          refine hacross c hc d ?_
          simpa [or_left_comm] using hd
      · exact h
  · exact h

variable [Std.TransCmp cmp]

/-- There always is an arrangement. -/
theorem arranged_mergeSort (items : List β) :
    Arranged cmp items (items.mergeSort fun a b => (cmp a b).isLE) := by
  refine ⟨List.mergeSort_perm .., List.pairwise_mergeSort ?_ ?_ items⟩
  · intro a b c
    exact Std.TransCmp.isLE_trans
  · intro a b
    have hswap : cmp b a = (cmp a b).swap := Std.OrientedCmp.eq_swap
    rw [hswap]
    cases cmp a b <;> rfl

namespace Arranged

theorem less_before (h : Arranged cmp items l) (first : β) :
    l.Pairwise fun a b => (cmp b first == .lt) = true → (cmp a first == .lt) = true := by
  refine h.ordered.imp fun hab hb => ?_
  rw [beq_iff_eq] at hb ⊢
  exact Std.TransCmp.lt_of_isLE_of_lt hab hb

/-- What is in front of a place where the list is parted is the same in all arrangements. -/
theorem take_perm {l' : List β} (hparted : Parted cmp items n) (h : Arranged cmp items l)
    (h' : Arranged cmp items l') : (l.take n).Perm (l'.take n) := by
  rcases hparted with hfew | ⟨first, -, hless⟩
  · rw [List.take_of_length_le (h.perm.length_eq ▸ hfew),
      List.take_of_length_le (h'.perm.length_eq ▸ hfew)]
    exact h.perm.trans h'.perm.symm
  · have hfront : ∀ {l : List β}, Arranged cmp items l →
        l.take n = l.filter fun a => cmp a first == .lt := by
      intro l h
      have hprefix : (l.filter fun a => cmp a first == .lt) <+: l := by
        rw [filter_eq_takeWhile (h.less_before first)]
        exact List.takeWhile_prefix _
      have hlength : (l.filter fun a => cmp a first == .lt).length = n :=
        (h.perm.filter _).length_eq.trans hless
      rw [List.prefix_iff_eq_take, hlength] at hprefix
      exact hprefix.symm
    rw [hfront h, hfront h']
    exact (h.perm.trans h'.perm.symm).filter _

/-- Where the list is not parted, the items on both sides are alike. -/
theorem exists_alike (hnot : ¬Parted cmp items n) (h : Arranged cmp items l) :
    ∃ front a b back, l = front ++ a :: b :: back ∧ front.length + 1 = n ∧
      (cmp b a).isLE = true := by
  rw [Parted, not_or, Nat.not_le, ← h.perm.length_eq] at hnot
  obtain ⟨hlong, hnone⟩ := hnot
  have hsplit : l = l.take n ++ l[n] :: l.drop (n + 1) := by
    rw [← List.drop_eq_getElem_cons hlong, List.take_append_drop]
  generalize l[n] = b at hsplit
  generalize hback : l.drop (n + 1) = back at hsplit
  obtain ⟨before, hbefore⟩ : ∃ before, before = l.take n := ⟨_, rfl⟩
  have hlength : before.length = n := by
    rw [hbefore, List.length_take, Nat.min_eq_left (Nat.le_of_lt hlong)]
  rw [← hbefore] at hsplit
  obtain ⟨hperm, hordered⟩ := h
  rw [hsplit, List.pairwise_append, List.pairwise_cons] at hordered
  obtain ⟨hfront, ⟨hbehind, -⟩, hacross⟩ := hordered
  -- only items in front are less than `b`, and not all of them are
  have hless : (items.filter fun a => cmp a b == .lt).length =
      (before.filter fun a => cmp a b == .lt).length := by
    have hlater : ((b :: back).filter fun a => cmp a b == .lt) = [] := by
      rw [List.filter_eq_nil_iff, List.forall_mem_cons]
      refine ⟨by simp [Std.ReflCmp.compare_self], fun a ha hlt => ?_⟩
      exact Std.OrientedCmp.not_lt_of_isLE (hbehind a ha) (beq_iff_eq.mp hlt)
    rw [← (hperm.filter _).length_eq, hsplit, List.filter_append, hlater, List.append_nil]
  have hsome : ∃ a ∈ before, (cmp a b == .lt) = false := by
    by_contra hall
    refine hnone ⟨b, hperm.mem_iff.mp (hsplit ▸ List.mem_append_right _ List.mem_cons_self), ?_⟩
    rw [hless, List.length_filter_eq_length_iff.mpr, hlength]
    intro a ha
    by_contra hlt
    exact hall ⟨a, ha, by simpa using hlt⟩
  obtain ⟨c, hc, hcb⟩ := hsome
  obtain ⟨front, a, rfl⟩ : ∃ front a, before = front ++ [a] := by
    rcases List.eq_nil_or_concat before with rfl | ⟨front, a, rfl⟩
    · cases hc
    · exact ⟨front, a, List.concat_eq_append⟩
  refine ⟨front, a, b, back, by rw [hsplit, List.append_assoc]; rfl, ?_, ?_⟩
  · rw [← hlength, List.length_append, List.length_singleton]
  · -- `a` is not before `c`, so it is not less than `b` either
    have hca : (cmp c a).isLE = true := by
      rw [List.mem_append, List.mem_singleton] at hc
      rcases hc with hc | rfl
      · exact (List.pairwise_append.mp hfront).2.2 c hc a (List.mem_singleton.mpr rfl)
      · exact Ordering.isLE_of_eq_eq Std.ReflCmp.compare_self
    have hab : cmp a b ≠ .lt := by
      intro hlt
      rw [Std.TransCmp.lt_of_isLE_of_lt hca hlt] at hcb
      cases hcb
    have hswap : cmp b a = (cmp a b).swap := Std.OrientedCmp.eq_swap
    rw [hswap]
    cases hcmp : cmp a b with
    | lt => exact absurd hcmp hab
    | eq | gt => rfl

end Arranged

/-- Where all items are told apart, the list is parted everywhere. -/
theorem parted_of_distinct (h : items.Pairwise fun a b => cmp a b ≠ .eq) (n : Nat) :
    Parted cmp items n := by
  by_contra hnot
  have harranged : Arranged cmp items _ := arranged_mergeSort items
  obtain ⟨front, a, b, back, hsplit, -, hba⟩ := harranged.exists_alike hnot
  have hdistinct := (harranged.perm.pairwise_iff fun hne heq =>
    hne (Std.OrientedCmp.eq_comm.mp heq)).mpr h
  have hordered := harranged.ordered
  rw [hsplit, List.pairwise_append, List.pairwise_cons, List.forall_mem_cons] at hdistinct hordered
  have hab : (cmp a b).isLE = true := hordered.2.1.1.1
  have hswap : cmp b a = (cmp a b).swap := Std.OrientedCmp.eq_swap
  rw [hswap] at hba
  refine hdistinct.2.1.1.1 ?_
  cases hcmp : cmp a b with
  | eq => rfl
  | lt =>
      rw [hcmp] at hba
      cases hba
  | gt =>
      rw [hcmp] at hab
      cases hab

end Grove
