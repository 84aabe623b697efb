import Mathlib.Logic.Function.Iterate
import Grove.Proofs.Criteria.Meaning
import Grove.Sql.Condition

/-!
# How far down criteria lead

The height of criteria is measured once, and whatever recurses over them afterwards relies on it.
This file says what the measure is worth.

`height` is a loop with a stack, stopped after as many rounds as there are nodes. `Walk` is the
loop without that stop, with the last operand of a connective on top of the stack. It is over after
exactly that many rounds, and has found the height by then (`Walk.iterate_round_eq_iff`). What
carries this is an invariant of any stack: a round takes one node away from what is below the
stack, and leaves alone the greatest level that the walk has met or will meet. The height is the
length of the longest way from the root down to a leaf (`levels_le_iff`).

Both ways of lowering criteria call themselves for the operands of a connective and for nothing
else, so they are one recursion with different ends (`Lowering`). With room for as many calls
inside each other as there are levels it comes to what it comes to without a bound
(`lowerWithin_eq`). A filter has its depth counted while it is compiled. One that criteria were
lowered to is as deep as they are, so this count never refuses what the check of the height has
let through (`ofFilterAt_toFilter_ne_tooNested`).
-/

namespace Grove

open Matcher (isOperator fieldChecks ofFilterAt ofMembers ofMember ofItems)

namespace Criteria

variable {c d : Criteria} {cs : List Criteria}

/-- What a connective connects. Comparisons and ranges connect nothing. -/
def operands : Criteria → List Criteria
  | .logical _ operands => operands
  | _ => []

theorem levels_eq_operands (c : Criteria) : c.levels = levelsOfAll c.operands + 1 := by
  cases c <;> simp only [levels, operands, levelsOfAll]

theorem size_eq_operands (c : Criteria) : c.size = sizes c.operands + 1 := by
  cases c <;> simp only [size, operands, sizes]

theorem levelsOfAll_eq_foldr (cs : List Criteria) :
    levelsOfAll cs = (cs.map height).foldr max 0 := by
  induction cs with
  | nil => rfl
  | cons c cs ih => rw [levelsOfAll, List.map_cons, List.foldr_cons, height_eq_levels, ih]

/-! ## The walk -/

/-- Where the walk that measures criteria stands: the nodes that it has still to visit, each with
its level, and the greatest level that it has met. -/
structure Walk where
  stack : List (Criteria × Nat)
  deepest : Nat

theorem stackSize_reverse (stack : List (Criteria × Nat)) :
    stackSize stack.reverse = stackSize stack := by
  induction stack with
  | nil => rfl
  | cons node stack ih =>
      rw [List.reverse_cons, stackSize_append, ih]
      simp only [stackSize]
      omega

theorem stackReach_reverse (stack : List (Criteria × Nat)) :
    stackReach stack.reverse = stackReach stack := by
  induction stack with
  | nil => rfl
  | cons node stack ih =>
      rw [List.reverse_cons, stackReach_append, ih]
      simp only [stackReach]
      omega

theorem stackSize_eq_zero_iff (stack : List (Criteria × Nat)) :
    stackSize stack = 0 ↔ stack = [] := by
  cases stack with
  | nil => simp [stackSize]
  | cons node stack =>
      have hnode := size_pos node.1
      simp only [stackSize, reduceCtorEq, iff_false]
      omega

namespace Walk

def start (c : Criteria) : Walk := ⟨[(c, 1)], 0⟩

/-- A round of the walk: the node on top of the stack is taken off, its level counts, and its
operands are put on one after the other, so that the last is on top. Without a node to take off the
walk is over. -/
def round (w : Walk) : Walk :=
  match w.stack with
  | [] => w
  | (c, level) :: rest =>
    ⟨(c.operands.map (·, level + 1)).reverse ++ rest, max w.deepest level⟩

/-- The greatest level that the walk has met or will meet. -/
def promise (w : Walk) : Nat := max w.deepest (stackReach w.stack)

theorem stackSize_round (w : Walk) : stackSize w.round.stack = stackSize w.stack - 1 := by
  obtain ⟨stack, deepest⟩ := w
  cases stack with
  | nil => rfl
  | cons node rest =>
      simp only [round, stackSize_append, stackSize_reverse, stackSize_operands, stackSize,
        size_eq_operands node.1]
      omega

theorem promise_round (w : Walk) : w.round.promise = w.promise := by
  obtain ⟨stack, deepest⟩ := w
  cases stack with
  | nil => rfl
  | cons node rest =>
      have hreach := stackReach_operands node.1.operands node.2
      simp only [round, promise, stackReach_append, stackReach_reverse, stackReach,
        levels_eq_operands node.1]
      omega

theorem stackSize_iterate (rounds : Nat) (w : Walk) :
    stackSize (round^[rounds] w).stack = stackSize w.stack - rounds := by
  induction rounds with
  | zero => rfl
  | succ rounds ih => rw [Function.iterate_succ_apply', stackSize_round, ih, Nat.sub_sub]

theorem promise_iterate (rounds : Nat) (w : Walk) : (round^[rounds] w).promise = w.promise := by
  induction rounds with
  | zero => rfl
  | succ rounds ih => rw [Function.iterate_succ_apply', promise_round, ih]

theorem promise_start (c : Criteria) : (start c).promise = c.height := by
  simp only [promise, start, stackReach, height_eq_levels]
  omega

/-- The walk is over after a round for each node, and no sooner. What it has met by then is the
height. -/
theorem iterate_round_eq_iff (c : Criteria) (rounds : Nat) :
    round^[rounds] (start c) = ⟨[], c.height⟩ ↔ c.size ≤ rounds := by
  have hsize : stackSize (round^[rounds] (start c)).stack = c.size - rounds :=
    stackSize_iterate rounds (start c)
  have hpromise : (round^[rounds] (start c)).promise = c.height := by
    rw [promise_iterate, promise_start]
  generalize round^[rounds] (start c) = w at hsize hpromise
  obtain ⟨stack, deepest⟩ := w
  simp only [mk.injEq, ← Nat.sub_eq_zero_iff_le, ← hsize, stackSize_eq_zero_iff]
  refine ⟨And.left, fun hstack => ⟨hstack, ?_⟩⟩
  -- An empty stack promises nothing, so what was promised has been met.
  rw [← hpromise, promise, hstack, stackReach, Nat.max_zero]

end Walk

/-! ## Ways down to a leaf -/

/-- The nodes on a way from criteria down to a leaf. A leaf is what has no operands, so a
connective that connects nothing is one. -/
inductive IsBranch : Criteria → List Criteria → Prop
  | leaf {c : Criteria} (h : c.operands = []) : IsBranch c [c]
  | down {c d : Criteria} {nodes : List Criteria} (hd : d ∈ c.operands) (h : IsBranch d nodes) :
      IsBranch c (c :: nodes)

theorem levels_le_levelsOfAll (h : c ∈ cs) : c.levels ≤ levelsOfAll cs := by
  induction cs with
  | nil => exact absurd h List.not_mem_nil
  | cons d ds ih =>
      rw [levelsOfAll]
      rcases List.mem_cons.mp h with rfl | h
      · exact Nat.le_max_left _ _
      · exact Nat.le_trans (ih h) (Nat.le_max_right _ _)

theorem exists_deepest (h : cs ≠ []) : ∃ c ∈ cs, c.levels = levelsOfAll cs := by
  induction cs with
  | nil => exact absurd rfl h
  | cons c cs ih =>
      rw [levelsOfAll]
      rcases Nat.le_total (levelsOfAll cs) c.levels with hle | hle
      · exact ⟨c, List.mem_cons_self, (Nat.max_eq_left hle).symm⟩
      · have hc := levels_pos c
        have hne : cs ≠ [] := by
          rintro rfl
          rw [levelsOfAll] at hle
          omega
        obtain ⟨d, hd, hlevels⟩ := ih hne
        exact ⟨d, List.mem_cons_of_mem c hd, hlevels.trans (Nat.max_eq_right hle).symm⟩

theorem IsBranch.length_le {nodes : List Criteria} (h : IsBranch c nodes) :
    nodes.length ≤ c.levels := by
  induction h with
  | leaf => exact levels_pos _
  | down hd _ ih =>
      have hlevels := levels_le_levelsOfAll hd
      rw [levels_eq_operands, List.length_cons]
      omega

/-- Some way down has a node on each level. The induction is on the levels, since the operand to go
on with is any of the deepest. -/
theorem exists_isBranch (c : Criteria) : ∃ nodes, IsBranch c nodes ∧ nodes.length = c.levels := by
  induction hn : c.levels using Nat.strongRecOn generalizing c with
  | ind n ih =>
      rw [levels_eq_operands] at hn
      by_cases hoperands : c.operands = []
      · refine ⟨[c], .leaf hoperands, ?_⟩
        rw [← hn, hoperands]
        rfl
      · obtain ⟨d, hd, hdeepest⟩ := exists_deepest hoperands
        obtain ⟨nodes, hnodes, hlength⟩ := ih d.levels (by omega) d rfl
        refine ⟨c :: nodes, .down hd hnodes, ?_⟩
        rw [List.length_cons, hlength, hdeepest, hn]

theorem levels_le_iff (c : Criteria) (limit : Nat) :
    c.levels ≤ limit ↔ ∀ nodes, IsBranch c nodes → nodes.length ≤ limit := by
  constructor
  · exact fun h nodes hnodes => Nat.le_trans hnodes.length_le h
  · intro h
    obtain ⟨nodes, hnodes, hlength⟩ := exists_isBranch c
    exact hlength ▸ h nodes hnodes

/-! ## Lowering -/

/-- A way of lowering criteria. It calls itself for the operands of a connective, in their order
and up to the first that fails, and joins what comes of them. What it makes of a comparison or a
range it makes without a call. -/
structure Lowering (α : Type) where
  lower : Criteria → Except CriteriaError α
  lowerAll : List Criteria → Except CriteriaError (List α)
  compare : Comparison → String → Json → Except CriteriaError α
  between : String → Json → Json → Except CriteriaError α
  join : Connective → List α → α
  lower_compare (op : Comparison) (field : String) (value : Json) :
    lower (.compare op field value) = compare op field value
  lower_between (field : String) (least most : Json) :
    lower (.between field least most) = between field least most
  lower_empty (op : Connective) : lower (.logical op []) = .error .noOperands
  lower_connective (op : Connective) (c : Criteria) (cs : List Criteria) :
    lower (.logical op (c :: cs)) = (lowerAll (c :: cs)).map (join op)
  lowerAll_nil : lowerAll [] = .ok []
  lowerAll_cons (c : Criteria) (cs : List Criteria) :
    lowerAll (c :: cs) = (do return (← lower c) :: (← lowerAll cs))

namespace Lowering

variable {α : Type}

mutual

/-- Lowers criteria with room for so many calls inside each other, its own included. It comes to
nothing where a call finds no room. -/
def lowerWithin (l : Lowering α) : Nat → Criteria → Option (Except CriteriaError α)
  | 0, _ => none
  | _ + 1, .compare op field value => some (l.compare op field value)
  | _ + 1, .between field least most => some (l.between field least most)
  | room + 1, .logical op operands =>
    match operands with
    | [] => some (.error .noOperands)
    | operands => (lowerAllWithin l room operands).map (·.map (l.join op))

def lowerAllWithin (l : Lowering α) (room : Nat) :
    List Criteria → Option (Except CriteriaError (List α))
  | [] => some (.ok [])
  | c :: cs =>
    match lowerWithin l room c with
    | some (.ok first) => (lowerAllWithin l room cs).map (·.map (first :: ·))
    | some (.error e) => some (.error e)
    | none => none

end

mutual

/-- With as much room as there are levels nothing is missing. -/
theorem lowerWithin_eq (l : Lowering α) {room : Nat} {c : Criteria} (h : c.levels ≤ room) :
    l.lowerWithin room c = some (l.lower c) := by
  obtain ⟨room, rfl⟩ : ∃ n, room = n + 1 := ⟨room - 1, by have := levels_pos c; omega⟩
  match c with
  | .compare op field value => rw [lowerWithin, l.lower_compare]
  | .between field least most => rw [lowerWithin, l.lower_between]
  | .logical op [] => simp only [lowerWithin, l.lower_empty]
  | .logical op (first :: rest) =>
      rw [levels] at h
      simp only [lowerWithin, l.lower_connective, Option.map_some,
        l.lowerAllWithin_eq (Nat.le_of_succ_le_succ h)]

theorem lowerAllWithin_eq (l : Lowering α) {room : Nat} {cs : List Criteria}
    (h : levelsOfAll cs ≤ room) : l.lowerAllWithin room cs = some (l.lowerAll cs) := by
  match cs with
  | [] => rw [lowerAllWithin, l.lowerAll_nil]
  | c :: cs =>
      rw [levelsOfAll, Nat.max_le] at h
      rw [lowerAllWithin, l.lowerWithin_eq h.1, l.lowerAllWithin_eq h.2, l.lowerAll_cons]
      -- An operand that fails ends both, before anything is asked of the others.
      cases l.lower c with
      | error e => rfl
      | ok first => cases l.lowerAll cs <;> rfl

end

mutual

/-- Criteria that have been lowered took as many calls inside each other as they have levels. -/
theorem levels_le_of_lowerWithin {l : Lowering α} {room : Nat} {c : Criteria} {a : α}
    (h : l.lowerWithin room c = some (.ok a)) : c.levels ≤ room := by
  match room, c with
  | 0, _ => rw [lowerWithin] at h; cases h
  | room + 1, .compare .. | room + 1, .between .. =>
      simp only [levels]
      exact Nat.le_add_left 1 room
  | room + 1, .logical op [] => simp [lowerWithin] at h
  | room + 1, .logical op (first :: rest) =>
      simp only [lowerWithin, Option.map_eq_some_iff] at h
      obtain ⟨lowered, hlowered, h⟩ := h
      obtain ⟨as, rfl, -⟩ := map_eq_ok.mp h
      rw [levels]
      exact Nat.succ_le_succ (levelsOfAll_le_of_lowerAllWithin hlowered)

theorem levelsOfAll_le_of_lowerAllWithin {l : Lowering α} {room : Nat} {cs : List Criteria}
    {as : List α} (h : l.lowerAllWithin room cs = some (.ok as)) : levelsOfAll cs ≤ room := by
  match cs with
  | [] => rw [levelsOfAll]; exact Nat.zero_le room
  | c :: cs =>
      rw [lowerAllWithin] at h
      split at h
      · next first hfirst =>
          obtain ⟨lowered, hlowered, h⟩ := Option.map_eq_some_iff.mp h
          obtain ⟨rest, rfl, -⟩ := map_eq_ok.mp h
          rw [levelsOfAll, Nat.max_le]
          exact ⟨levels_le_of_lowerWithin hfirst, levelsOfAll_le_of_lowerAllWithin hlowered⟩
      · cases h
      · cases h

end

def filters : Lowering Json where
  lower := toFilter
  lowerAll := toFilters
  compare op field value := do
    checkName field
    return .object [(field, ← fieldCheck op value)]
  between field least most := do
    checkName field
    return .object [(field, .object [("$gte", least), ("$lte", most)])]
  join op filters := .object [(op.filterOperator, .array filters)]
  lower_compare op field value := by rw [toFilter]
  lower_between field least most := by rw [toFilter]
  lower_empty op := by rw [toFilter]
  lower_connective op c cs := by
    simp only [toFilter]
    cases toFilters (c :: cs) <;> rfl
  lowerAll_nil := by rw [toFilters]
  lowerAll_cons c cs := by rw [toFilters]

def conditions : Lowering Sql.Condition where
  lower := lowerCondition
  lowerAll := lowerConditions
  compare op field value := do
    checkName field
    if Text.has field '.' then nestedCondition op field value else flatCondition op field value
  between field least most := do
    checkName field
    return .and [.test field .gte least, .test field .lte most]
  join
    | .and, parts => .and parts
    | .or, parts => .or parts
  lower_compare op field value := by rw [lowerCondition]
  lower_between field least most := by rw [lowerCondition]
  lower_empty op := by rw [lowerCondition]
  lower_connective op c cs := by
    simp only [lowerCondition]
    cases lowerConditions (c :: cs) <;> cases op <;> rfl
  lowerAll_nil := by rw [lowerConditions]
  lowerAll_cons c cs := by rw [lowerConditions]

end Lowering

/-! ## Compiling what was lowered -/

theorem ofOperator_ne_tooNested (operator : String) (argument : Json) :
    FieldCheck.ofOperator operator argument ≠ .error .tooNested := by
  unfold FieldCheck.ofOperator
  repeat' split
  all_goals nofun

theorem operatorChecks_ne_tooNested (members : List (String × Json)) :
    members.mapM (fun m => FieldCheck.ofOperator m.1 m.2) ≠ .error .tooNested := by
  induction members with
  | nil => nofun
  | cons m members ih =>
      rw [List.mapM_cons]
      intro h
      rcases cons_eq_error h with hfirst | hrest
      · exact ofOperator_ne_tooNested m.1 m.2 hfirst
      · exact ih hrest

/-- What a field is asked is not gone into, however deep it is. -/
theorem fieldChecks_ne_tooNested (asked : Json) : fieldChecks asked ≠ .error .tooNested := by
  cases asked with
  | object members =>
      rw [fieldChecks]
      split
      · exact operatorChecks_ne_tooNested members
      · simp
  | null | bool | number | string | array => simp [fieldChecks]

/-- The filter of one member fails where its member does, unless it stands too deep. -/
theorem ofMember_of_ofFilterAt_eq_error {depth : Nat} (hd : depth ≤ maxHeight) {name : String}
    {value : Json} {e : FilterError} (h : ofFilterAt depth (.object [(name, value)]) = .error e) :
    ofMember depth name value = .error e := by
  rw [ofFilterAt, if_neg (Nat.not_lt.mpr hd), map_eq_error] at h
  rcases cons_eq_error h with hfirst | hrest
  · exact hfirst
  · cases hrest

theorem ofFilterAt_field_ne_tooNested {depth : Nat} (hd : depth ≤ maxHeight) {field : String}
    (hname : checkName field = .ok ()) (asked : Json) :
    ofFilterAt depth (.object [(field, asked)]) ≠ .error .tooNested := by
  intro h
  have hmember := ofMember_of_ofFilterAt_eq_error hd h
  rw [ofMember_field (checkName_eq_ok hname).2, map_eq_error] at hmember
  exact fieldChecks_ne_tooNested asked hmember

theorem ofItems_of_ofFilterAt_eq_error {depth : Nat} (hd : depth ≤ maxHeight) (op : Connective)
    {items : List Json} {e : FilterError}
    (h : ofFilterAt depth (.object [(op.filterOperator, .array items)]) = .error e) :
    ofItems (depth + 1) items = .error e := by
  have hmember := ofMember_of_ofFilterAt_eq_error hd h
  cases op <;> simpa [ofMember, Connective.filterOperator, map_eq_error] using hmember

mutual

/-- The filter of criteria is as deep as they are, and a filter that leaves room for itself is
never refused for its depth. It may be refused for something else. -/
theorem ofFilterAt_toFilter_ne_tooNested {c : Criteria} {filter : Json} (depth : Nat)
    (h : c.toFilter = .ok filter) (hd : depth + c.levels ≤ maxHeight + 1) :
    ofFilterAt depth filter ≠ .error .tooNested := by
  have hdepth : depth ≤ maxHeight := by
    have := levels_pos c
    omega
  match c with
  | .compare op field value =>
      rw [toFilter] at h
      obtain ⟨⟨⟩, hname, h⟩ := bind_eq_ok.mp h
      obtain ⟨asked, -, h⟩ := bind_eq_ok.mp h
      cases h
      exact ofFilterAt_field_ne_tooNested hdepth hname asked
  | .between field lower upper =>
      rw [toFilter] at h
      obtain ⟨⟨⟩, hname, h⟩ := bind_eq_ok.mp h
      cases h
      exact ofFilterAt_field_ne_tooNested hdepth hname _
  | .logical op [] =>
      simp only [toFilter, reduceCtorEq] at h
  | .logical op (first :: rest) =>
      simp only [toFilter] at h
      obtain ⟨items, hitems, h⟩ := bind_eq_ok.mp h
      cases h
      -- The operands stand a level deeper than the connective and have a level less.
      rw [levels] at hd
      intro herror
      exact ofItems_toFilters_ne_tooNested (depth + 1) hitems (by omega)
        (ofItems_of_ofFilterAt_eq_error hdepth op herror)

theorem ofItems_toFilters_ne_tooNested {cs : List Criteria} {filters : List Json} (depth : Nat)
    (h : toFilters cs = .ok filters) (hd : depth + levelsOfAll cs ≤ maxHeight + 1) :
    ofItems depth filters ≠ .error .tooNested := by
  match cs with
  | [] =>
      rw [toFilters] at h
      cases h
      nofun
  | c :: cs =>
      rw [toFilters] at h
      obtain ⟨filter, hfilter, h⟩ := bind_eq_ok.mp h
      obtain ⟨filters, hfilters, h⟩ := bind_eq_ok.mp h
      cases h
      rw [levelsOfAll] at hd
      rw [ofItems]
      intro herror
      rcases cons_eq_error herror with hfirst | hrest
      · exact ofFilterAt_toFilter_ne_tooNested depth hfilter (by omega) hfirst
      · exact ofItems_toFilters_ne_tooNested depth hfilters (by omega) hrest

end

theorem ofFilter_filter_ne_tooNested {selected : Option Criteria} {filter : Json}
    (h : Criteria.filter selected = .ok filter) : Matcher.ofFilter filter ≠ .error .tooNested := by
  cases selected with
  | none =>
      cases h
      nofun
  | some c =>
      obtain ⟨hfilter, hlevels⟩ := filter_eq_ok h
      exact ofFilterAt_toFilter_ne_tooNested 1 hfilter (by omega)

/-- The height is one more than that of the highest operand, and the walk is over, with the height,
after a round for each node. The check accepts criteria that have no way down to a leaf with more
nodes than the limit. What it accepts is lowered with no more calls inside each other than that, to
a filter and to a condition alike, and no filter that criteria were lowered to is refused for its
depth. -/
theorem height_bounds_descent :
    (∀ c : Criteria,
      c.height = 1 + (c.operands.map height).foldr max 0 ∧
      (∀ rounds, Walk.round^[rounds] (.start c) = ⟨[], c.height⟩ ↔ c.size ≤ rounds) ∧
      (c.checkHeight = .ok () ↔ ∀ nodes, IsBranch c nodes → nodes.length ≤ maxHeight) ∧
      (c.checkHeight = .ok () →
        Lowering.filters.lowerWithin maxHeight c = some c.toFilter ∧
        Lowering.conditions.lowerWithin maxHeight c = some c.lowerCondition)) ∧
    ∀ selected filter, Criteria.filter selected = .ok filter →
      Matcher.ofFilter filter ≠ .error .tooNested := by
  refine ⟨fun c => ⟨?_, Walk.iterate_round_eq_iff c, ?_, fun h => ?_⟩,
    fun _ _ => ofFilter_filter_ne_tooNested⟩
  · rw [height_eq_levels, levels_eq_operands, levelsOfAll_eq_foldr, Nat.add_comm]
  · rw [checkHeight_eq_ok_iff, levels_le_iff]
  · have hlevels := (checkHeight_eq_ok_iff c).mp h
    exact ⟨Lowering.filters.lowerWithin_eq hlevels, Lowering.conditions.lowerWithin_eq hlevels⟩

def nest : Nat → Criteria
  | 0 => .eq "a" .null
  | n + 1 => .logical .or [nest n]

theorem levels_nest (n : Nat) : (nest n).levels = n + 1 := by
  induction n with
  | zero => rfl
  | succ n ih => simp only [nest, levels, levelsOfAll, ih, Nat.max_zero]

theorem toFilter_nest (n : Nat) : ∃ filter, (nest n).toFilter = .ok filter := by
  induction n with
  | zero => exact ⟨_, rfl⟩
  | succ n ih =>
      obtain ⟨filter, hfilter⟩ := ih
      exact ⟨_, by simp only [nest, toFilter, toFilters, hfilter]; rfl⟩

/-- What has as many levels as there may be is lowered with as many calls, and with no fewer. One
level more is refused. -/
theorem height_bounds_descent_nest :
    (Criteria.logical .and []).height = 1 ∧ (nest 64).checkHeight ≠ .ok () ∧
      (nest 63).checkHeight = .ok () ∧ ∃ filter, Criteria.filter (some (nest 63)) = .ok filter ∧
        Lowering.filters.lowerWithin 64 (nest 63) = some (.ok filter) ∧
        Lowering.filters.lowerWithin 63 (nest 63) ≠ some (.ok filter) ∧
        Matcher.ofFilter filter ≠ .error .tooNested := by
  obtain ⟨hcriteria, hfilters⟩ := height_bounds_descent
  obtain ⟨-, -, hfull, hroom⟩ := hcriteria (nest 63)
  obtain ⟨-, -, hmore, -⟩ := hcriteria (nest 64)
  have hchecked : (nest 63).checkHeight = .ok () :=
    hfull.mpr fun nodes hnodes => Nat.le_trans hnodes.length_le (Nat.le_of_eq (levels_nest 63))
  have hrefused : (nest 64).checkHeight ≠ .ok () := by
    obtain ⟨nodes, hnodes, hlength⟩ := exists_isBranch (nest 64)
    intro h
    have hle := hmore.mp h nodes hnodes
    rw [hlength, levels_nest] at hle
    exact absurd hle (by decide)
  obtain ⟨filter, hfilter⟩ := toFilter_nest 63
  have hlowered : Criteria.filter (some (nest 63)) = .ok filter := by
    rw [Criteria.filter, hchecked, hfilter]
    rfl
  refine ⟨(hcriteria (.logical .and [])).1, hrefused, hchecked, filter, hlowered,
    (hroom hchecked).1.trans (congrArg some hfilter), fun h => ?_, hfilters _ filter hlowered⟩
  have hle := Lowering.levels_le_of_lowerWithin h
  rw [levels_nest] at hle
  exact absurd hle (by decide)

end Criteria

end Grove
