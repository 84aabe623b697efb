import Mathlib.Data.String.Basic
import Grove.Proofs.Criteria.Meaning
import Grove.Proofs.Json.Equality

/-!
# Criteria as formulas

The plain reading of criteria is a formula over tests of single fields, and this module says
what each test asks for, one relation for each of equality, order and text. A record is read
at a path by following its names from object to object, and where they lead nowhere it reads
as null; null is a value like any other, which equals itself and has no order and no text.

`Criteria.Holds` is the formula and `holds_iff_selects` is the link to what a matcher
computes. Every relation is tied to its function by one equivalence, so the link over the
whole tree only has to know what the connectives do.
-/

namespace Grove

open Matcher (fieldAt walk)

namespace Json

/-- The names lead from one value to the other, each to a member of the object before it. -/
inductive LeadsTo : Json → List String → Json → Prop
  | here (v : Json) : LeadsTo v [] v
  | inside {members : List (String × Json)} {name : String} {names : List String}
      {inner v : Json} (hmember : members.lookup name = some inner)
      (hrest : LeadsTo inner names v) : LeadsTo (.object members) (name :: names) v

/-- Values are equal that are built alike, and so are numbers with one binary64 value. -/
inductive Equals : Json → Json → Prop
  | alike {v w : Json} (h : v.same w = true) : Equals v w
  | number {m n : Number} (h : m.toDouble.scaled = n.toDouble.scaled) :
      Equals (.number m) (.number n)

/-- A value meets what it equals, and a list also what one of its items equals, as long as
that is no list itself. -/
inductive Meets : Json → Json → Prop
  | whole {v w : Json} (h : Equals v w) : Meets v w
  | item {items : List Json} {v w : Json} (hmem : v ∈ items) (h : Equals v w)
      (hw : w.array? = none) : Meets (.array items) w

/-- A number, a string or a truth value before another of its kind. -/
inductive Below : Json → Json → Prop
  | number {m n : Number} (h : m.toDouble.scaled < n.toDouble.scaled) :
      Below (.number m) (.number n)
  | string {s t : String} (h : s < t) : Below (.string s) (.string t)
  | bool : Below (.bool false) (.bool true)

/-- A number, a string or a truth value not after another of its kind. -/
inductive AtMost : Json → Json → Prop
  | number {m n : Number} (h : m.toDouble.scaled ≤ n.toDouble.scaled) :
      AtMost (.number m) (.number n)
  | string {s t : String} (h : s ≤ t) : AtMost (.string s) (.string t)
  | bool {a b : Bool} (h : a ≤ b) : AtMost (.bool a) (.bool b)

/-- The text of a string, a number or a truth value. -/
inductive HasText : Json → String → Prop
  | string (s : String) : HasText (.string s) s
  | number (n : Number) : HasText (.number n) n.text
  | true : HasText (.bool true) "true"
  | false : HasText (.bool false) "false"

end Json

/-- The record has the value in the field, or it has nothing there and the value is null. -/
def Record.Reads (record : Record) (field : String) (v : Json) : Prop :=
  Json.LeadsTo (.object record.fields) (Text.split '.' field) v ∨
    v = .null ∧ ∀ w, ¬ Json.LeadsTo (.object record.fields) (Text.split '.' field) w

/-- The value stands to the constant as the comparison says. -/
def Comparison.Relates (op : Comparison) (v constant : Json) : Prop :=
  match op with
  | .eq => v.Meets constant
  | .ne => ¬ v.Meets constant
  | .gt => constant.Below v
  | .gte => constant.AtMost v
  | .lt => v.Below constant
  | .lte => v.AtMost constant
  | .isIn => ∃ items, constant = .array items ∧ ∃ item ∈ items, v.Meets item
  | .notIn => ∃ items, constant = .array items ∧ ∀ item ∈ items, ¬ v.Meets item
  | .like => ∃ pattern regex text, constant = .string pattern ∧
      Regex.parse (Criteria.likePattern pattern) = .ok regex ∧ v.HasText text ∧
      regex.isMatch text = true

namespace Criteria

/-- The criteria, read as a formula, are true of the record. -/
inductive Holds (record : Record) : Criteria → Prop
  | compare {op : Comparison} {field : String} {v constant : Json}
      (hreads : record.Reads field v) (h : op.Relates v constant) :
      Holds record (.compare op field constant)
  | between {field : String} {v lower upper : Json} (hreads : record.Reads field v)
      (hlower : lower.AtMost v) (hupper : v.AtMost upper) :
      Holds record (.between field lower upper)
  | and {operands : List Criteria} (h : ∀ c ∈ operands, Holds record c) :
      Holds record (.logical .and operands)
  | or {c : Criteria} {operands : List Criteria} (hmem : c ∈ operands) (h : Holds record c) :
      Holds record (.logical .or operands)

end Criteria

/-! ## Values -/

namespace Json

theorem equals_iff {v w : Json} : v.Equals w ↔ v.equalScalar w = true := by
  constructor
  · rintro (h | h)
    · cases v with
      | number m =>
          cases w with
          | number n => exact Number.toDouble_same_of_same h
          | null | bool | string | array | object => exact h
      | null | bool | string | array | object => exact h
    · exact beq_iff_eq.mpr h
  · intro h
    cases v with
    | number m =>
        cases w with
        | number n => exact .number (beq_iff_eq.mp h)
        | null | bool | string | array | object => exact .alike h
    | null | bool | string | array | object => exact .alike h

theorem not_equals_array {items : List Json} {w : Json} (hw : w.array? = none) :
    ¬ (Json.array items).Equals w := by
  rw [equals_iff]
  cases w <;> simp [array?, equalScalar, same] at hw ⊢

theorem meets_array_iff {items : List Json} {w : Json} (hw : w.array? = none) :
    (Json.array items).Meets w ↔ ∃ v ∈ items, v.Equals w := by
  constructor
  · rintro (h | ⟨hmem, h, -⟩)
    · exact absurd h (not_equals_array hw)
    · exact ⟨_, hmem, h⟩
  · rintro ⟨v, hmem, h⟩
    exact .item hmem h hw

/-- What equality asks of a field, where nothing counts as null. -/
theorem meets_iff {field : Option Json} {w : Json} :
    (field.getD .null).Meets w ↔ equalField field w = true := by
  have hwhole : ∀ v : Json, v.array? = none → (v.Meets w ↔ v.equalScalar w = true) := by
    intro v hv
    rw [← equals_iff]
    refine ⟨fun h => ?_, .whole⟩
    cases h with
    | whole h => exact h
    | item => cases hv
  cases field with
  | none =>
      rw [Option.getD_none, hwhole .null rfl]
      cases w <;> simp [equalField, equalScalar, same, isNull]
  | some v =>
      cases v with
      | array items =>
          cases w with
          | array targets =>
              rw [Option.getD_some, equalField, ← equals_iff]
              refine ⟨fun h => ?_, .whole⟩
              cases h with
              | whole h => exact h
              | item _ _ hw => cases hw
          | null | bool | number | string | object =>
              rw [Option.getD_some, meets_array_iff rfl]
              simp [equalField, List.any_eq_true, equals_iff]
      | null | bool | number | string | object => exact hwhole _ rfl

theorem below_iff {v w : Json} : v.Below w ↔ v.order? w = some .lt := by
  constructor
  · rintro (h | h | _)
    · exact congrArg some (Int.compare_eq_lt.mpr h)
    · exact congrArg some (compare_lt_iff_lt.mpr h)
    · rfl
  · intro h
    match v, w with
    | .number m, .number n => exact .number (Int.compare_eq_lt.mp (Option.some.inj h))
    | .string s, .string t => exact .string (compare_lt_iff_lt.mp (Option.some.inj h))
    | .bool false, .bool true => exact .bool
    | .bool false, .bool false | .bool true, .bool false | .bool true, .bool true => cases h

theorem order?_swap (v w : Json) : w.order? v = (v.order? w).map Ordering.swap := by
  cases v with
  | number m =>
      cases w with
      | number n => exact congrArg some (Int.compare_swap _ _).symm
      | null | bool | string | array | object => rfl
  | string s =>
      cases w with
      | string t => exact congrArg some Std.OrientedOrd.eq_swap
      | null | bool | number | array | object => rfl
  | bool a =>
      cases w with
      | bool b => cases a <;> cases b <;> rfl
      | null | number | string | array | object => rfl
  | null | array | object => cases w <;> rfl

theorem atMost_iff {v w : Json} : v.AtMost w ↔ (v.order? w).any (· != .gt) = true := by
  constructor
  · rintro (h | h | h)
    · exact bne_iff_ne.mpr (Int.compare_ne_gt.mpr h)
    · exact bne_iff_ne.mpr (compare_le_iff_le.mpr h)
    · exact bne_iff_ne.mpr (compare_le_iff_le.mpr h)
  · intro h
    match v, w with
    | .number m, .number n => exact .number (Int.compare_ne_gt.mp (bne_iff_ne.mp h))
    | .string s, .string t => exact .string (compare_le_iff_le.mp (bne_iff_ne.mp h))
    | .bool a, .bool b => exact .bool (compare_le_iff_le.mp (bne_iff_ne.mp h))

theorem hasText_iff {v : Json} {text : String} : v.HasText text ↔ v.patternText? = some text := by
  constructor
  · rintro (_ | _ | _ | _) <;> rfl
  · intro h
    match v with
    | .string s => exact Option.some.inj h ▸ .string s
    | .number n => exact Option.some.inj h ▸ .number n
    | .bool true => exact Option.some.inj h ▸ .true
    | .bool false => exact Option.some.inj h ▸ .false

end Json

/-! ## One comparison -/

/-- A comparison asks of the value of a field what it asks of the field; nothing has no order
and no text, and neither has null. -/
theorem Comparison.relates_iff (op : Comparison) (field : Option Json) (constant : Json) :
    op.Relates (field.getD .null) constant ↔ op.holds constant field = true := by
  have horder : (field.getD .null).order? constant = field.bind (·.order? constant) := by
    cases field <;> rfl
  have hswap := Json.order?_swap (field.getD .null) constant
  rw [horder] at hswap
  cases op with
  | eq => exact Json.meets_iff
  | ne =>
      rw [Relates, holds, Json.meets_iff]
      simp
  | lt =>
      rw [Relates, holds, Json.below_iff, horder]
      cases field.bind (·.order? constant) <;> simp
  | gt =>
      rw [Relates, holds, Json.below_iff, hswap]
      rcases field.bind (·.order? constant) with _ | _ | _ | _ <;> simp
  | lte => rw [Relates, holds, Json.atMost_iff, horder]
  | gte =>
      rw [Relates, holds, Json.atMost_iff, hswap]
      rcases field.bind (·.order? constant) with _ | _ | _ | _ <;> simp
  | isIn =>
      simp only [Relates, holds, Json.meets_iff]
      cases constant <;> simp [Json.array?]
  | notIn =>
      simp only [Relates, holds, Json.meets_iff]
      cases constant <;> simp [Json.array?]
  | like =>
      have htext : (field.getD .null).patternText? = field.bind Json.patternText? := by
        cases field <;> rfl
      simp only [Relates, holds, Json.hasText_iff, htext]
      cases constant with
      | string pattern =>
          cases hparse : Regex.parse (Criteria.likePattern pattern) with
          | ok regex => simp [hparse, Option.any_eq_true]
          | error e => simp [hparse]
      | null | bool | number | array | object => simp

/-! ## Fields -/

namespace Json

theorem leadsTo_iff {v w : Json} {names : List String} :
    v.LeadsTo names w ↔ walk v names = some w := by
  induction names generalizing v with
  | nil =>
      constructor
      · rintro ⟨_⟩
        rfl
      · intro h
        exact Option.some.inj h ▸ .here v
  | cons name names ih =>
      constructor
      · rintro (_ | ⟨hmember, hrest⟩)
        rw [walk, hmember, Option.bind_some, ih.mp hrest]
      · intro h
        cases v with
        | object members =>
            obtain ⟨inner, hmember, hrest⟩ := Option.bind_eq_some_iff.mp h
            exact .inside hmember (ih.mpr hrest)
        | null | bool | number | string | array => cases h

end Json

theorem Record.reads_iff {record : Record} {field : String} {v : Json} :
    record.Reads field v ↔ v = (fieldAt record (Text.split '.' field)).getD .null := by
  have hwalk : fieldAt record (Text.split '.' field) =
      walk (.object record.fields) (Text.split '.' field) := by
    have hne := Text.split_ne_nil '.' field
    cases hnames : Text.split '.' field with
    | nil => exact absurd hnames hne
    | cons name names => rfl
  rw [Reads, hwalk]
  simp only [Json.leadsTo_iff]
  cases walk (.object record.fields) (Text.split '.' field) with
  | none => simp
  | some w => simp [eq_comm]

/-! ## Trees -/

namespace Criteria

mutual

/-- The formula is true of the records that the criteria select. -/
theorem holds_iff_selects {record : Record} {c : Criteria} :
    c.Holds record ↔ c.selects record = true := by
  match c with
  | .compare op field constant =>
      rw [selects, ← op.relates_iff]
      constructor
      · rintro ⟨hreads, h⟩
        exact Record.reads_iff.mp hreads ▸ h
      · exact .compare (Record.reads_iff.mpr rfl)
  | .between field lower upper =>
      rw [selects, Bool.and_eq_true, ← Comparison.relates_iff, ← Comparison.relates_iff]
      constructor
      · rintro (_ | ⟨hreads, hlower, hupper⟩)
        exact Record.reads_iff.mp hreads ▸ ⟨hlower, hupper⟩
      · exact fun h => .between (Record.reads_iff.mpr rfl) h.1 h.2
  | .logical .and operands =>
      rw [selects, ← allHold_iff_selectsAll]
      constructor
      · rintro (_ | _ | h)
        exact h
      · exact .and
  | .logical .or operands =>
      rw [selects, ← anyHolds_iff_selectsAny]
      constructor
      · rintro (_ | _ | _ | ⟨hmem, h⟩)
        exact ⟨_, hmem, h⟩
      · exact fun ⟨_, hmem, h⟩ => .or hmem h

theorem allHold_iff_selectsAll {record : Record} {cs : List Criteria} :
    (∀ c ∈ cs, c.Holds record) ↔ selectsAll record cs = true := by
  match cs with
  | [] => simp [selectsAll]
  | c :: cs =>
      rw [List.forall_mem_cons, selectsAll, Bool.and_eq_true, holds_iff_selects,
        allHold_iff_selectsAll]

theorem anyHolds_iff_selectsAny {record : Record} {cs : List Criteria} :
    (∃ c ∈ cs, c.Holds record) ↔ selectsAny record cs = true := by
  match cs with
  | [] => simp [selectsAny]
  | c :: cs =>
      rw [List.exists_mem_cons_iff, selectsAny, Bool.or_eq_true, holds_iff_selects,
        anyHolds_iff_selectsAny]

end

end Criteria

end Grove
