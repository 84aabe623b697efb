import Grove.Criteria

/-!
# The height of criteria

`Criteria.height` walks the tree with a stack, so that a tree as deep as a caller likes
can be measured. What it measures is `Criteria.levels`, which is said along the tree: a
leaf has one level, and a connective one more than the deepest of its operands.

The walk is related to the tree by an invariant over arbitrary stacks. A node on the
stack with its level stands for everything below it, and the greatest level that the
stack still promises never changes from round to round (`deepestLevel_eq`).
-/

namespace Grove.Criteria

mutual

/-- How many levels the tree has, said along the tree. -/
def levels : Criteria → Nat
  | .logical _ operands => levelsOfAll operands + 1
  | _ => 1

def levelsOfAll : List Criteria → Nat
  | [] => 0
  | c :: cs => max (levels c) (levelsOfAll cs)

end

theorem levels_pos (c : Criteria) : 0 < c.levels := by
  cases c <;> simp [levels]

theorem size_pos (c : Criteria) : 0 < c.size := by
  cases c <;> simp [size]

/-! ## What a stack stands for -/

def stackSize : List (Criteria × Nat) → Nat
  | [] => 0
  | (c, _) :: stack => c.size + stackSize stack

/-- The greatest level that the nodes of a stack reach down to. -/
def stackReach : List (Criteria × Nat) → Nat
  | [] => 0
  | (c, level) :: stack => max (level + c.levels - 1) (stackReach stack)

theorem stackSize_append (stack rest : List (Criteria × Nat)) :
    stackSize (stack ++ rest) = stackSize stack + stackSize rest := by
  induction stack with
  | nil => simp [stackSize]
  | cons node stack ih =>
      simp only [List.cons_append, stackSize, ih]
      omega

theorem stackReach_append (stack rest : List (Criteria × Nat)) :
    stackReach (stack ++ rest) = max (stackReach stack) (stackReach rest) := by
  induction stack with
  | nil => simp [stackReach]
  | cons node stack ih =>
      simp only [List.cons_append, stackReach, ih]
      omega

theorem stackSize_operands (cs : List Criteria) (level : Nat) :
    stackSize (cs.map (·, level)) = sizes cs := by
  induction cs with
  | nil => rfl
  | cons c cs ih => simp only [List.map_cons, stackSize, sizes, ih]

/-- Operands put on the stack one level below their connective reach as far down as the
connective did; without operands, that is the level of the connective itself. -/
theorem stackReach_operands (cs : List Criteria) (level : Nat) :
    max level (stackReach (cs.map (·, level + 1))) = level + levelsOfAll cs := by
  induction cs with
  | nil => simp [stackReach, levelsOfAll]
  | cons c cs ih =>
      have hc := levels_pos c
      simp only [List.map_cons, stackReach, levelsOfAll]
      omega

/-- The walk answers the greatest level that the stack promises, however it gets there:
taking a connective off and putting its operands on keeps the promise. -/
theorem deepestLevel_eq (fuel : Nat) (stack : List (Criteria × Nat)) (deepest : Nat)
    (h : stackSize stack ≤ fuel) :
    deepestLevel fuel stack deepest = max deepest (stackReach stack) := by
  induction fuel generalizing stack deepest with
  | zero =>
      match stack with
      | [] => simp [deepestLevel, stackReach]
      | (c, _) :: _ =>
          have hc := size_pos c
          simp only [stackSize] at h
          omega
  | succ fuel ih =>
      match stack with
      | [] => simp [deepestLevel, stackReach]
      | (.logical op operands, level) :: stack =>
          simp only [stackSize, size] at h
          rw [deepestLevel, ih _ _ (by rw [stackSize_append, stackSize_operands]; omega)]
          have hreach := stackReach_operands operands level
          simp only [stackReach_append, stackReach, levels]
          omega
      | (.compare _ _ _, level) :: stack | (.between _ _ _, level) :: stack =>
          simp only [stackSize, size] at h
          rw [deepestLevel, ih _ _ (by omega)]
          · simp only [stackReach, levels]
            omega
          · simp

theorem height_eq_levels (c : Criteria) : c.height = c.levels := by
  have hc := levels_pos c
  rw [height, deepestLevel_eq _ _ _ (by simp [stackSize])]
  simp only [stackReach]
  omega

/-- The check lets through exactly the trees that have no more levels than are allowed. -/
theorem checkHeight_eq_ok_iff (c : Criteria) : c.checkHeight = .ok () ↔ c.levels ≤ maxHeight := by
  rw [checkHeight, height_eq_levels]
  split <;> simp <;> omega

end Grove.Criteria
