import Grove.Document.Store
import Grove.Proofs.Criteria.Dialects
import Grove.Proofs.Criteria.Integers
import Grove.Proofs.Sql.Lowering

/-!
# Paths into columns

A field with points is looked up in a document member by member, and in a table a server follows
the path into a column and asks for containment there. What is found is compared alike
(`contains_eq_equalField`): a text, a truth value or a small integer is contained in what equals
it and in a list that has it for an item. The ways there are not the same. A server takes the
items of a list by their positions, where documents have nothing, and it reads a bare NULL in the
literal of a path as no name at all. Apart from that, and only there, both select the same records
(`dotted_equality_agrees_iff`).
-/

namespace Grove

open Matcher (fieldAt walk)
open Sql (Engine Truth Expression Condition cell numberValue)

namespace Json

/-! ## What a server does with values -/

def position? (name : String) : Option Nat := Text.readDigits? name.toList

/-- The value at the end of a path: members of objects by name, items of lists by position. -/
def follow : Json → List String → Option Json
  | v, [] => some v
  | .object members, name :: names => (members.lookup name).bind fun v => follow v names
  | .array items, name :: names =>
    ((position? name).bind (items[·]?)).bind fun v => follow v names
  | _, _ :: _ => none

/-- Equality of values that have no parts. Numbers are equal by value, however they are
written. -/
def equalPlain : Json → Json → Bool
  | .null, .null => true
  | .bool a, .bool b => a == b
  | .number a, .number b => numberValue a == numberValue b
  | .string a, .string b => a == b
  | _, _ => false

mutual

/-- Whether a value has the structure of another: all its members, and all its items in any
order. -/
def covers : Json → Json → Bool
  | .object held, .object members => coversMembers held members
  | .array held, .array items => coversItems held items
  | v, w => v.equalPlain w

def coversMembers (held : List (String × Json)) : List (String × Json) → Bool
  | [] => true
  | (name, w) :: members =>
    (match held.lookup name with
      | some v => covers v w
      | none => false) && coversMembers held members

def coversItems (held : List Json) : List Json → Bool
  | [] => true
  | w :: items => held.any (covers · w) && coversItems held items

end

/-- Containment. A list contains also a plain value that is one of its items. -/
def contains : Json → Json → Bool
  | .array held, .array items => coversItems held items
  | .array _, .object _ => false
  | .array held, w => held.any (·.covers w)
  | v, w => v.covers w

end Json

/-- Whether a name of a path, written bare in a literal, stands for no name. -/
def Sql.isNullWord (name : String) : Bool := Text.equalIgnoringCase name "null"

/-- What a server does that follows paths into a column and compares what it finds there. Along a
path with a name that is none it finds nothing. -/
structure Sql.Engine.FollowsPaths (e : Engine) : Prop where
  contains : ∀ held names value, e.contains held names value =
    (!names.any Sql.isNullWord && (held.bind (·.follow names)).any (·.contains value))

/-- A server that follows paths. -/
def Sql.Engine.walking : Engine :=
  { Engine.plain with
    contains := fun held names value =>
      !names.any Sql.isNullWord && (held.bind (·.follow names)).any (·.contains value) }

theorem Sql.Engine.walking_followsPaths : Engine.walking.FollowsPaths := ⟨fun _ _ _ => rfl⟩

namespace Json

def IsPathConstant : Json → Prop
  | .bool _ | .string _ => True
  | .number (.int n) => n.natAbs < 0x10000000000000
  | _ => False

/-! ## What is found is compared alike -/

/-- Rounding to binary64 makes no other integer a small one. -/
theorem same_ofInt_iff (m : Int) {n : Int} (hn : n.natAbs < 0x10000000000000) :
    (Double.ofInt m).same (Double.ofInt n) = true ↔ m = n := by
  refine ⟨fun hsame => ?_, fun h => by rw [h, Double.same, beq_self_eq_true]⟩
  by_contra hne
  by_cases hm : m.natAbs.log2 ≤ 1022
  · have hapart : Number.Apart m n :=
      Number.apart_of_log2_le hm (Nat.lt_trans hn (by decide)) hne
    rw [Number.Apart, hsame] at hapart
    cases hapart
  · -- What is beyond the range is rounded to a number that is far too large.
    have hlarge := Double.twoTo_le_magnitude_ofInt (Nat.lt_of_not_le hm)
    have hexact := Double.scaled_ofInt (Nat.le_trans (Nat.le_of_lt hn) (by decide))
    have hsize : (Double.ofInt m).magnitude = n.natAbs * twoTo 1074 := by
      have habs := congrArg Int.natAbs ((eq_of_beq hsame).trans hexact)
      rw [Int.natAbs_mul, Int.natAbs_natCast] at habs
      rw [← habs, Double.scaled]
      split
      · rw [Int.natAbs_neg, Int.natAbs_natCast]
      · rw [Int.natAbs_natCast]
    have hsmall : n.natAbs * twoTo 1074 < twoTo 2097 := by
      calc n.natAbs * twoTo 1074
        _ < twoTo 52 * twoTo 1074 := Nat.mul_lt_mul_of_pos_right hn (twoTo_pos _)
        _ = twoTo (52 + 1074) := (twoTo_add 52 1074).symm
        _ ≤ twoTo 2097 := Double.twoTo_mono (by decide)
    rw [hsize] at hlarge
    exact Nat.not_le_of_lt hsmall hlarge

theorem equalScalar_number (a : Number) {n : Int} (hn : n.natAbs < 0x10000000000000) :
    a.toDouble.same (Double.ofInt n) = (numberValue a == numberValue (.int n)) := by
  cases a with
  | int m =>
      rw [Bool.eq_iff_iff, Number.toDouble, same_ofInt_iff m hn, beq_iff_eq]
      have hpos : (twoTo 1074 : Int) ≠ 0 := Int.ne_of_gt (Int.natCast_pos.mpr (twoTo_pos 1074))
      exact ⟨fun h => by rw [h], fun h => Int.eq_of_mul_eq_mul_right hpos h⟩
  | float x => rw [Double.same, Double.scaled_ofInt (by omega)]; rfl

theorem equalPlain_eq_equalScalar (x : Json) {v : Json} (hv : v.IsPathConstant) :
    x.equalPlain v = x.equalScalar v := by
  match x, v with
  | .number a, .number (.int n) => exact (equalScalar_number a hv).symm
  | .bool _, .bool _ | .string _, .string _ => rfl
  | .null, .bool _ | .null, .string _ | .null, .number (.int _) => rfl
  | .bool _, .string _ | .bool _, .number (.int _) => rfl
  | .string _, .bool _ | .string _, .number (.int _) => rfl
  | .number _, .bool _ | .number _, .string _ => rfl
  | .array _, .bool _ | .array _, .string _ | .array _, .number (.int _) => rfl
  | .object _, .bool _ | .object _, .string _ | .object _, .number (.int _) => rfl

theorem covers_eq_equalScalar (x : Json) {v : Json} (hv : v.IsPathConstant) :
    x.covers v = x.equalScalar v := by
  rw [← equalPlain_eq_equalScalar x hv]
  match v with
  | .bool _ | .string _ | .number (.int _) => cases x <;> simp [covers]

/-- A plain constant is contained in what equals it, or has it for an item. -/
theorem contains_eq_equalField (x : Json) {v : Json} (hv : v.IsPathConstant) :
    x.contains v = equalField (some x) v := by
  have hplain := fun y : Json => covers_eq_equalScalar y hv
  match v with
  | .bool _ | .string _ | .number (.int _) => cases x <;> simp [contains, equalField, hplain]

/-! ## Two ways along a path -/

/-- The path comes to a list and takes an item that is there. -/
def takesItem : Json → List String → Bool
  | .object members, name :: names =>
    match members.lookup name with
    | some v => takesItem v names
    | none => false
  | .array items, name :: _ => ((position? name).bind (items[·]?)).isSome
  | _, _ => false

/-- Member by member one comes as far as a server does, unless the path takes an item. -/
theorem walk_eq (names : List String) (v : Json) :
    walk v names = if v.takesItem names then none else v.follow names := by
  induction names generalizing v with
  | nil => cases v <;> rfl
  | cons name names ih =>
      cases v with
      | object members =>
          rw [walk, follow, takesItem]
          cases members.lookup name with
          | none => rfl
          | some inner => exact ih inner
      | array items =>
          rw [follow, takesItem]
          cases (position? name).bind (items[·]?) <;> rfl
      | null | bool | number | string => rfl

/-- What documents find at the end of a path, and whether it is the constant. -/
theorem equalField_eq_any (found : Option Json) {v : Json} (hv : v.IsPathConstant) :
    equalField found v = found.any (·.contains v) := by
  cases found with
  | some x => exact (contains_eq_equalField x hv).symm
  | none =>
      match v with
      | .bool _ | .string _ | .number (.int _) => rfl

theorem isTests_of_isPathConstant {v : Json} (hv : v.IsPathConstant) : v.isTests = false := by
  match v with
  | .bool _ | .string _ | .number (.int _) => rfl

end Json

/-- The record has the constant where one of the ways along the path comes to and the other does
not. Documents come to names that the literal of the path does not name, and servers to what lies
in or behind an item of a list. -/
def Record.Astray (record : Record) (field : String) (v : Json) : Prop :=
  ∃ root names held, Text.split '.' field = root :: names ∧ record.get? root = some held ∧
    if names.any Sql.isNullWord then (walk held names).any (·.contains v) = true
    else held.takesItem names = true ∧ (held.follow names).any (·.contains v) = true

section Along

variable {e : Engine} {record : Record} {field : String} {v : Json}

/-- Null in a column is nothing, and null in a document holds nothing. -/
theorem any_follow_cell (hv : v.IsPathConstant) (root : String) (names : List String) :
    ((cell record root).bind (·.follow names)).any (·.contains v) =
      ((record.get? root).bind (·.follow names)).any (·.contains v) := by
  cases hheld : record.get? root with
  | none => rw [cell, hheld]; rfl
  | some held =>
      cases held with
      | null =>
          rw [cell, hheld]
          cases names with
          | nil =>
              rw [Option.bind_some, Json.follow, Option.any_some,
                Json.contains_eq_equalField _ hv]
              cases v with
              | bool | string => rfl
              | number n =>
                  cases n with
                  | int n => rfl
                  | float x => cases hv
              | null | array | object => cases hv
          | cons name names => rfl
      | bool | number | string | array | object => rw [cell, hheld]; rfl

/-- The two ways along a path find the constant alike where the record does not lead astray. -/
theorem contains_eq_iff (he : e.FollowsPaths) (hv : v.IsPathConstant) {root : String}
    {names : List String} (hsplit : Text.split '.' field = root :: names) :
    e.contains (cell record root) names v = Json.equalField (fieldAt record (root :: names)) v ↔
      ¬ record.Astray field v := by
  have hfield : fieldAt record (root :: names) = (record.get? root).bind (walk · names) := rfl
  have hastray : record.Astray field v ↔ ∃ held, record.get? root = some held ∧
      if names.any Sql.isNullWord then (walk held names).any (·.contains v) = true
      else held.takesItem names = true ∧ (held.follow names).any (·.contains v) = true := by
    constructor
    · rintro ⟨root', names', held, hsplit', hheld, h⟩
      cases hsplit.symm.trans hsplit'
      exact ⟨held, hheld, h⟩
    · rintro ⟨held, hheld, h⟩
      exact ⟨root, names, held, hsplit, hheld, h⟩
  rw [he.contains, any_follow_cell hv, hfield, Json.equalField_eq_any _ hv, hastray]
  cases hheld : record.get? root with
  | none => simp
  | some held =>
      simp only [Option.bind_some, Option.some.injEq, exists_eq_left']
      rw [Json.walk_eq names held]
      cases names.any Sql.isNullWord <;> cases held.takesItem names <;>
        cases hfound : (held.follow names).any (·.contains v) <;> simp [hfound]

end Along

namespace Criteria

/-- Of an equality or inequality along a path, both dialects say the same of a record exactly if
the record does not lead astray: neither does the path name a member that its literal cannot name,
nor does it take an item of a list, and have the constant there. -/
theorem dotted_equality_agrees_iff {e : Engine} (he : e.FollowsPaths) {op : Comparison}
    {field : String} (hdotted : Text.has field '.' = true) {v : Json} (hv : v.IsPathConstant)
    {w : Condition} (hw : condition (some (.compare op field v)) = .ok w) :
    w.reading.words = w.expression ∧
    ∃ m, Matcher.ofCriteria (some (.compare op field v)) = .ok m ∧
      ∀ record, w.reading.truth e record = some (m.accepts record) ↔ ¬ record.Astray field v := by
  obtain ⟨⟨⟩, -, hlower⟩ := bind_eq_ok.mp hw
  rw [lowerCondition] at hlower
  obtain ⟨⟨⟩, hname, hnested⟩ := bind_eq_ok.mp hlower
  rw [if_pos hdotted] at hnested
  refine ⟨Condition.words_reading w, ?_⟩
  obtain ⟨root, names, hsplit⟩ := List.exists_cons_of_ne_nil (Text.split_ne_nil '.' field)
  have htruth (record : Record) : (Expression.containing field v).truth e record =
      some (e.contains (cell record root) names v) := by
    rw [Expression.truth, hsplit]
  obtain ⟨-, -, ⟨rfl, rfl⟩ | ⟨rfl, rfl⟩⟩ := nestedCondition_eq_ok hnested
  · refine ⟨_, (ofCriteria_compare hname rfl).mpr
      ⟨_, fieldChecks_of_not_isTests (Json.isTests_of_isPathConstant hv), rfl⟩, fun record => ?_⟩
    change (Expression.containing field v).truth e record = _ ↔ _
    rw [htruth, accepts_field, ← contains_eq_iff he hv hsplit, hsplit]
    simp [FieldCheck.accepts]
  · refine ⟨_, (ofCriteria_compare hname rfl).mpr
      ⟨_, fieldChecks_operation (by decide) rfl, rfl⟩, fun record => ?_⟩
    change ((Expression.containing field v).truth e record).negation = _ ↔ _
    rw [htruth, accepts_field, ← contains_eq_iff he hv hsplit, hsplit]
    simp [FieldCheck.accepts, Truth.negation]

/-- A list at the end of a path holds its items in both dialects, and so does a list within it
in neither. -/
theorem dotted_equality_agrees_iff_list :
    let criteria : Criteria := .compare .eq "a.tags" (.ofInt 7)
    let record : Record := ⟨[("a", .object [("tags", .array [.ofInt 7, .array [.ofInt 5]])])]⟩
    let w : Condition := .test "a.tags" .contains (.ofInt 7)
    Engine.walking.FollowsPaths ∧ Text.has "a.tags" '.' = true ∧
    (Json.ofInt 7).IsPathConstant ∧ condition (some criteria) = .ok w ∧
    ¬ record.Astray "a.tags" (.ofInt 7) ∧
    ∃ m, Matcher.ofCriteria (some criteria) = .ok m ∧ m.accepts record = true ∧
      w.reading.truth Engine.walking record = some true := by
  intro criteria record w
  have he := Engine.walking_followsPaths
  have hdotted : Text.has "a.tags" '.' = true := by decide
  have hv : (Json.ofInt 7).IsPathConstant := by
    change Int.natAbs 7 < 0x10000000000000
    decide
  have hw : condition (some criteria) = .ok w := rfl
  have hastray : ¬ record.Astray "a.tags" (.ofInt 7) := by
    rintro ⟨root, names, held, hsplit, hheld, h⟩
    cases hsplit
    cases hheld
    revert h
    decide +kernel
  obtain ⟨-, m, hm, hagree⟩ := dotted_equality_agrees_iff he hdotted hv hw
  have haccepts : m.accepts record = true := by
    cases hm
    decide +kernel
  refine ⟨he, hdotted, hv, hw, hastray, m, hm, haccepts, ?_⟩
  rw [(hagree record).mpr hastray, haccepts]

/-- A position in a path is an item of a list to a server and the name of a member to
documents. -/
theorem item_found_only_in_tables :
    let criteria : Criteria := .compare .eq "a.0" (.string "x")
    let record : Record := ⟨[("a", .array [.string "x"])]⟩
    let w : Condition := .test "a.0" .contains (.string "x")
    condition (some criteria) = .ok w ∧
    (∀ e : Engine, e.FollowsPaths → w.reading.truth e record = some true) ∧
    ∃ m, Matcher.ofCriteria (some criteria) = .ok m ∧ m.accepts record = false := by
  intro criteria record w
  refine ⟨rfl, fun e he => ?_, _, rfl, by decide +kernel⟩
  change some (e.contains (cell record "a") ["0"] (.string "x")) = some true
  rw [he.contains]
  decide +kernel

end Criteria

end Grove
