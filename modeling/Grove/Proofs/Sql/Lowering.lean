import Mathlib.Data.List.Forall2
import Grove.Proofs.Criteria.Meaning
import Grove.Sql.Condition

/-!
# What lowering makes of criteria

A node of criteria can become few things, and what it becomes is decided in several places: by
the points in the name of its field, by its operator and by its value. `LoweringInvariant` has all
that can come of it, with what has been checked on the way, as the cases of an induction over
criteria and the conditions that they are lowered to. So what holds of every condition is shown by
saying why it holds of each of these.
-/

namespace Grove.Criteria

open Sql (Condition Operator)

/-- A name with points that leads into a column: its parts can be written in a literal. -/
structure IsPath (field : String) : Prop where
  dotted : Text.has field '.' = true
  simple : ∀ segment ∈ Text.split '.' field, isSimpleSegment segment = true

def operatorOf : Comparison → Operator
  | .eq => .eq
  | .ne => .ne
  | .gt => .gt
  | .gte => .gte
  | .lt => .lt
  | .lte => .lte
  | .isIn => .isIn
  | .notIn => .notIn
  | .like => .matchesPattern

variable {op : Comparison} {field : String} {value : Json} {w : Condition}

/-- Into a column there are only containment and its denial, along a path of simple names, and
never of null. -/
theorem nestedCondition_eq_ok (h : nestedCondition op field value = .ok w) :
    (∀ segment ∈ Text.split '.' field, isSimpleSegment segment = true) ∧ value.isNull = false ∧
      (op = .eq ∧ w = .test field .contains value ∨ op = .ne ∧ w = .test field .lacks value) := by
  unfold nestedCondition at h
  split at h
  · cases h
  · next hsimple =>
      simp only [Bool.not_eq_true', Bool.not_eq_false, List.all_eq_true] at hsimple
      split at h
      · cases h
      · next hnull =>
          refine ⟨hsimple, by simpa using hnull, ?_⟩
          split at h
          · exact .inl ⟨rfl, (Except.ok.inj h).symm⟩
          · exact .inr ⟨rfl, (Except.ok.inj h).symm⟩
          · cases h

/-- A whole column is compared with any value, but for lists and patterns. -/
theorem flatCondition_eq_ok (h : flatCondition op field value = .ok w) :
    (op ∉ [.isIn, .notIn, .like] ∧ w = .test field (operatorOf op) value) ∨
      (op ∈ [.isIn, .notIn] ∧ ∃ items, value = .array items ∧
        w = .test field (operatorOf op) value) ∨
      op = .like ∧ ∃ text, value = .string text ∧
        w = .test field .matchesPattern (.string (likePattern text)) := by
  cases op with
  | eq | ne | gt | gte | lt | lte => exact .inl ⟨by decide, (Except.ok.inj h).symm⟩
  | isIn | notIn =>
      cases value with
      | array items => exact .inr (.inl ⟨by decide, items, rfl, (Except.ok.inj h).symm⟩)
      | null | bool | number | string | object => cases h
  | like =>
      obtain ⟨pattern, hread, rfl⟩ := map_eq_ok.mp h
      obtain ⟨text, -, rfl, rfl, -⟩ := readLike_eq_ok hread
      exact .inr (.inr ⟨rfl, text, rfl, rfl⟩)

/-- Of two lists related item by item, every item of the second is related to one of the first. -/
theorem exists_related {α β : Type} {related : α → β → Prop} {as : List α} {bs : List β}
    (h : List.Forall₂ related as bs) {b : β} (hb : b ∈ bs) : ∃ a ∈ as, related a b := by
  induction h with
  | nil => exact absurd hb List.not_mem_nil
  | cons hfirst _ ih =>
      rcases List.mem_cons.mp hb with rfl | hb
      · exact ⟨_, List.mem_cons_self, hfirst⟩
      · obtain ⟨a, ha, hrelated⟩ := ih hb
        exact ⟨a, List.mem_cons_of_mem _ ha, hrelated⟩

/-- What holds of criteria and of what lowering makes of them, by what can become of a node. -/
structure LoweringInvariant (holds : Criteria → Condition → Prop) : Prop where
  contains : ∀ field value, IsPath field → value.isNull = false →
    holds (.compare .eq field value) (.test field .contains value)
  lacks : ∀ field value, IsPath field → value.isNull = false →
    holds (.compare .ne field value) (.test field .lacks value)
  flat : ∀ op field value, Text.has field '.' = false → op ∉ [.isIn, .notIn, .like] →
    holds (.compare op field value) (.test field (operatorOf op) value)
  list : ∀ op field items, Text.has field '.' = false → op ∈ [.isIn, .notIn] →
    holds (.compare op field (.array items)) (.test field (operatorOf op) (.array items))
  like : ∀ field text, Text.has field '.' = false →
    holds (.compare .like field (.string text))
      (.test field .matchesPattern (.string (likePattern text)))
  between : ∀ field lower upper,
    holds (.between field lower upper) (.and [.test field .gte lower, .test field .lte upper])
  and : ∀ operands parts, operands ≠ [] → List.Forall₂ holds operands parts →
    holds (.logical .and operands) (.and parts)
  or : ∀ operands parts, operands ≠ [] → List.Forall₂ holds operands parts →
    holds (.logical .or operands) (.or parts)

namespace LoweringInvariant

variable {holds : Criteria → Condition → Prop}

mutual

theorem of_lowerCondition (hinv : LoweringInvariant holds) {c : Criteria} {w : Condition}
    (h : lowerCondition c = .ok w) : holds c w := by
  match c with
  | .compare op field value =>
      rw [lowerCondition] at h
      obtain ⟨⟨⟩, -, h⟩ := bind_eq_ok.mp h
      split at h
      · next hdotted =>
          obtain ⟨hsimple, hnull, ⟨rfl, rfl⟩ | ⟨rfl, rfl⟩⟩ := nestedCondition_eq_ok h
          · exact hinv.contains field value ⟨hdotted, hsimple⟩ hnull
          · exact hinv.lacks field value ⟨hdotted, hsimple⟩ hnull
      · next hplain =>
          have hflat : Text.has field '.' = false := by simpa using hplain
          obtain ⟨hop, rfl⟩ | ⟨hop, items, rfl, rfl⟩ | ⟨rfl, text, rfl, rfl⟩ :=
            flatCondition_eq_ok h
          · exact hinv.flat op field value hflat hop
          · exact hinv.list op field items hflat hop
          · exact hinv.like field text hflat
  | .between field lower upper =>
      rw [lowerCondition] at h
      obtain ⟨⟨⟩, -, h⟩ := bind_eq_ok.mp h
      cases h
      exact hinv.between field lower upper
  | .logical op [] => simp [lowerCondition] at h
  | .logical op (first :: rest) =>
      simp only [lowerCondition] at h
      obtain ⟨parts, hparts, h⟩ := bind_eq_ok.mp h
      have hall := hinv.of_lowerConditions hparts
      cases op with
      | and =>
          cases h
          exact hinv.and _ parts (List.cons_ne_nil first rest) hall
      | or =>
          cases h
          exact hinv.or _ parts (List.cons_ne_nil first rest) hall

theorem of_lowerConditions (hinv : LoweringInvariant holds) {cs : List Criteria}
    {ws : List Condition} (h : lowerConditions cs = .ok ws) : List.Forall₂ holds cs ws := by
  match cs with
  | [] =>
      cases h
      exact .nil
  | c :: cs =>
      rw [lowerConditions] at h
      obtain ⟨first, hfirst, h⟩ := bind_eq_ok.mp h
      obtain ⟨rest, hrest, h⟩ := bind_eq_ok.mp h
      cases h
      exact .cons (hinv.of_lowerCondition hfirst) (hinv.of_lowerConditions hrest)

end

theorem of_condition (hinv : LoweringInvariant holds) {c : Criteria} {w : Condition}
    (h : condition (some c) = .ok w) : holds c w := by
  obtain ⟨⟨⟩, -, h⟩ := bind_eq_ok.mp h
  exact hinv.of_lowerCondition h

end LoweringInvariant

end Grove.Criteria
