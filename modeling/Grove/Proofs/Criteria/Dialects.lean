import Grove.Document.Order
import Grove.Proofs.Criteria.Meaning
import Grove.Proofs.Decimal.Exact
import Grove.Proofs.Sql.Expression
import Grove.Proofs.Text.Split

/-!
# Both dialects select the same records

Criteria over fields without points can be put to documents and to tables. Both dialects
take the same criteria, and they select the same records: the matcher of the filter
accepts a record exactly when the expression of the condition is true of its row.

The two are compared through `Criteria.selects`, which the matcher computes. For the
condition the argument is about truth alone. A condition negates only single tests, so a
conjunction is true when its parts are, a disjunction when one of them is, and unknown
never has to be told from false except under `NOT IN`. There, as everywhere, the arms for
null make the difference: a missing field satisfies an inequality and a denied list without
null in documents, and the words of the condition say so for tables.
-/

namespace Grove

open Sql (Engine Truth Expression Condition cell)
open Sql.Condition (reading readings testReading memberReading strangerReading)

/-- What a server does that orders text by its characters and has this library's patterns. -/
structure Sql.Engine.Agrees (e : Engine) : Prop where
  compareText : ∀ s t, e.compareText s t = compare s t
  hasMatch : ∀ pattern regex, Regex.parse pattern = .ok regex →
    ∀ text, e.hasMatch pattern text = regex.isMatch text

def Sql.Engine.plain : Engine where
  compareText := compare
  hasMatch pattern text :=
    match Regex.parse pattern with
    | .ok regex => regex.isMatch text
    | .error _ => false
  contains _ _ _ := false

theorem Sql.Engine.plain_agrees : Engine.plain.Agrees where
  compareText _ _ := rfl
  hasMatch pattern regex h text := by simp only [plain, h]

/-- A value of a scalar column: null, a truth value, a text, or an integer of at most 2^53. -/
def Json.IsScalar : Json → Prop
  | .null | .bool _ | .string _ => True
  | .number (.int n) => n.natAbs ≤ 0x20000000000000
  | _ => False

/-- Whether what the record holds in the field, unless it is nothing or null, is of the
kind of the constant, unless that is null. -/
def Record.Fits (record : Record) (field : String) (constant : Json) : Prop :=
  constant.isNull = false → ∀ held, record.get? field = some held → held.isNull = false →
    Json.kindRank (some held) = Json.kindRank (some constant)

def Record.IsScalar (record : Record) : Prop :=
  ∀ field held, record.get? field = some held → held.IsScalar

/-- Whether the constant is what the operator takes: a list of scalar values, a text, or
one scalar value. -/
def Comparison.Takes (op : Comparison) (constant : Json) : Prop :=
  match op with
  | .isIn | .notIn => ∃ items, constant = .array items ∧ ∀ v ∈ items, v.IsScalar
  | .like => ∃ text, constant = .string text
  | _ => constant.IsScalar

def Comparison.compared (op : Comparison) (constant : Json) : List Json :=
  match op with
  | .isIn | .notIn => constant.array?.getD []
  | .like => []
  | _ => [constant]

namespace Criteria

mutual

/-- Criteria over fields without points, with the constants that scalar columns take. -/
def Flat : Criteria → Prop
  | .compare op field constant => Text.has field '.' = false ∧ op.Takes constant
  | .between field lower upper =>
    Text.has field '.' = false ∧ lower.IsScalar ∧ upper.IsScalar
  | .logical _ operands => AllFlat operands

def AllFlat : List Criteria → Prop
  | [] => True
  | c :: cs => Flat c ∧ AllFlat cs

end

mutual

/-- Every constant is of the kind of what the record holds in its field. -/
def Suits (record : Record) : Criteria → Prop
  | .compare op field constant => ∀ v ∈ op.compared constant, record.Fits field v
  | .between field lower upper => record.Fits field lower ∧ record.Fits field upper
  | .logical _ operands => AllSuit record operands

def AllSuit (record : Record) : List Criteria → Prop
  | [] => True
  | c :: cs => Suits record c ∧ AllSuit record cs

end

/-! ## The same criteria are taken -/

theorem fieldCheck_refusal (op : Comparison) (field : String) (constant : Json) :
    (fieldCheck op constant).map (fun _ => ()) =
      (flatCondition op field constant).map (fun _ => ()) := by
  cases op with
  | eq | ne | gt | gte | lt | lte => rfl
  | isIn | notIn => cases constant <;> rfl
  | like =>
      simp only [fieldCheck, flatCondition]
      cases readLike constant <;> rfl

mutual

theorem toFilter_refusal {c : Criteria} (h : c.Flat) :
    c.toFilter.map (fun _ => ()) = c.lowerCondition.map (fun _ => ()) := by
  match c with
  | .compare op field constant =>
      rw [Flat] at h
      rw [toFilter, lowerCondition, h.1]
      cases checkName field with
      | error e => rfl
      | ok u =>
          have hrefusal := fieldCheck_refusal op field constant
          cases hf : fieldCheck op constant <;> cases hc : flatCondition op field constant <;>
            simp_all [Except.map, bind, Except.bind, pure, Except.pure]
  | .between field lower upper =>
      rw [toFilter, lowerCondition]
      cases checkName field <;> rfl
  | .logical op [] =>
      simp only [toFilter, lowerCondition, Except.map]
  | .logical op (first :: rest) =>
      rw [Flat] at h
      have hrefusal := toFilters_refusal h
      simp only [toFilter, lowerCondition]
      cases hf : toFilters (first :: rest) <;> cases hc : lowerConditions (first :: rest) <;>
        cases op <;> simp_all [Except.map, bind, Except.bind, pure, Except.pure]

theorem toFilters_refusal {cs : List Criteria} (h : AllFlat cs) :
    (toFilters cs).map (fun _ => ()) = (lowerConditions cs).map (fun _ => ()) := by
  match cs with
  | [] => rfl
  | c :: cs =>
      rw [AllFlat] at h
      have hfirst := toFilter_refusal h.1
      have hrest := toFilters_refusal h.2
      rw [toFilters, lowerConditions]
      cases hf : c.toFilter <;> cases hc : c.lowerCondition <;>
        cases hfs : toFilters cs <;> cases hcs : lowerConditions cs <;>
          simp_all [Except.map, bind, Except.bind, pure, Except.pure]

end

/-- Both dialects refuse the same criteria, and for one reason. -/
theorem filter_refusal {c : Criteria} (h : c.Flat) :
    (Criteria.filter (some c)).map (fun _ => ()) = (condition (some c)).map (fun _ => ()) := by
  simp only [Criteria.filter, condition]
  cases checkHeight c with
  | error e => rfl
  | ok u => exact toFilter_refusal h

end Criteria

/-! ## One field -/

/-- Two scalar values of one kind have one order for both, and equality is a case of it.
Integers are compared as binary64 numbers by the one and as integers by the other; up to
2^53 that is the same. -/
theorem order?_of_kindRank {e : Engine} (he : e.Agrees) {v w : Json} (hv : v.IsScalar)
    (hw : w.IsScalar) (hk : Json.kindRank (some v) = Json.kindRank (some w))
    (hn : w.isNull = false) :
    ∃ o, v.order? w = some o ∧ e.order? v w = some o ∧ v.equalScalar w = (o == .eq) := by
  match v, w with
  | .bool a, .bool b =>
      refine ⟨compare a b, rfl, rfl, ?_⟩
      cases a <;> cases b <;> rfl
  | .string a, .string b =>
      refine ⟨compare a b, rfl, by simp only [Engine.order?, he.compareText], ?_⟩
      have heq : compare a b = .eq ↔ a = b := Std.compare_eq_iff_eq
      exact Bool.eq_iff_iff.mpr (by simp [Json.equalScalar, Json.same, heq])
  | .number (.int m), .number (.int n) =>
      have hcmp : (Number.int m).cmp (.int n) = compare (Sql.numberValue (.int m))
          (Sql.numberValue (.int n)) := by
        simp only [Number.cmp, Number.toDouble, Double.cmp, Double.scaled_ofInt hv,
          Double.scaled_ofInt hw, Sql.numberValue]
      refine ⟨_, by rw [Json.order?, hcmp], rfl, ?_⟩
      rw [Json.equalScalar, Double.same, Number.toDouble, Number.toDouble, Double.scaled_ofInt hv,
        Double.scaled_ofInt hw]
      exact Bool.eq_iff_iff.mpr (by rw [beq_iff_eq, beq_iff_eq, Int.compare_eq_eq]; rfl)
  | _, .null => simp [Json.isNull] at hn
  | .null, .bool _ | .null, .string _ | .null, .number (.int _) | .bool _, .string _
  | .bool _, .number (.int _) | .string _, .bool _ | .string _, .number (.int _)
  | .number (.int _), .bool _ | .number (.int _), .string _ => simp [Json.kindRank] at hk
  | .array _, _ | .object _, _ | .number (.float _), _ => exact absurd hv (by simp [Json.IsScalar])
  | _, .array _ | _, .object _ | _, .number (.float _) => exact absurd hw (by simp [Json.IsScalar])

section Field

variable {e : Engine} {record : Record} {field : String}

theorem get?_of_cell {held : Json} (h : cell record field = some held) :
    record.get? field = some held ∧ held.isNull = false := by
  rw [cell, Option.filter_eq_some_iff] at h
  exact ⟨h.1, by simpa using h.2⟩

theorem get?_of_cell_eq_none (h : cell record field = none) :
    record.get? field = none ∨ record.get? field = some .null := by
  cases hget : record.get? field with
  | none => exact .inl rfl
  | some held =>
      rw [cell, hget] at h
      cases held <;> simp [Json.isNull] at h ⊢

theorem equalField_of_cell_eq_none (h : cell record field = none) (w : Json) :
    Json.equalField (record.get? field) w = w.isNull := by
  rcases get?_of_cell_eq_none h with hget | hget <;> rw [hget]
  · rfl
  · cases w <;> rfl

theorem equalField_of_cell (hr : record.IsScalar) {held : Json} (h : cell record field = some held)
    {w : Json} : Json.equalField (record.get? field) w = held.equalScalar w := by
  have hget := (get?_of_cell h).1
  have hheld := hr field held hget
  rw [hget]
  cases held <;> first | rfl | exact absurd hheld (by simp [Json.IsScalar])

theorem order?_of_cell_eq_none (h : cell record field = none) (w : Json) :
    (record.get? field).bind (·.order? w) = none := by
  rcases get?_of_cell_eq_none h with hget | hget <;> rw [hget] <;> cases w <;> rfl

/-- A comparison with a constant is true of a row when the order that the record's value has
to the constant passes the operator's test. -/
theorem compared_eq_true_iff (he : e.Agrees) (hr : record.IsScalar) {w : Json} (hw : w.IsScalar)
    (hfit : record.Fits field w) {op : Sql.Operator} {test : Ordering → Bool}
    (hop : ∀ o, op.admits o = some (test o)) :
    e.compared (cell record field) op w = some true ↔
      ((record.get? field).bind (·.order? w)).any test = true := by
  cases hcell : cell record field with
  | none => simp [Engine.compared, order?_of_cell_eq_none hcell]
  | some held =>
      obtain ⟨hget, hheld⟩ := get?_of_cell hcell
      rw [hget, Engine.compared]
      cases hnull : w.isNull with
      | true =>
          cases w <;> simp [Json.isNull] at hnull
          cases held <;> simp [Engine.order?, Json.order?]
      | false =>
          obtain ⟨o, ho, heo, -⟩ :=
            order?_of_kindRank he (hr field held hget) hw (hfit hnull held hget hheld) hnull
          simp [ho, heo, hop]

theorem compared_eq (he : e.Agrees) (hr : record.IsScalar) {held w : Json}
    (hcell : cell record field = some held) (hw : w.IsScalar) (hfit : record.Fits field w)
    (hnull : w.isNull = false) :
    e.compared (some held) .eq w = some (Json.equalField (record.get? field) w) := by
  obtain ⟨hget, hheld⟩ := get?_of_cell hcell
  obtain ⟨o, -, heo, heq⟩ :=
    order?_of_kindRank he (hr field held hget) hw (hfit hnull held hget hheld) hnull
  rw [equalField_of_cell hr hcell, heq, Engine.compared]
  simp [heo, Sql.Operator.admits]

theorem compared_eq_iff (he : e.Agrees) (hr : record.IsScalar) {w : Json} (hw : w.IsScalar)
    (hfit : record.Fits field w) (hnull : w.isNull = false) :
    e.compared (cell record field) .eq w = some true ↔
      Json.equalField (record.get? field) w = true := by
  cases hcell : cell record field with
  | none => simp [Engine.compared, equalField_of_cell_eq_none hcell, hnull]
  | some held => simp [compared_eq he hr hcell hw hfit hnull]

/-! ## Lists

A list is read without its nulls. What that leaves out is an arm of its own: a null in the
list stands for the rows that have none. -/

def listed (items : List Json) : List Json := items.filter fun v => !v.isNull

theorem mem_listed {items : List Json} {v : Json} :
    v ∈ listed items ↔ v ∈ items ∧ v.isNull = false := by
  simp [listed]

theorem any_equalField_of_cell_eq_none (h : cell record field = none) (items : List Json) :
    items.any (Json.equalField (record.get? field)) = items.any Json.isNull :=
  congrArg items.any (funext (equalField_of_cell_eq_none h))

theorem any_equalField_of_cell (hr : record.IsScalar) {held : Json}
    (h : cell record field = some held) (items : List Json) :
    items.any (Json.equalField (record.get? field)) =
      (listed items).any (Json.equalField (record.get? field)) := by
  refine Bool.eq_iff_iff.mpr ?_
  simp only [List.any_eq_true, mem_listed]
  refine exists_congr fun v => ⟨fun ⟨hv, heq⟩ => ⟨⟨hv, ?_⟩, heq⟩, fun ⟨⟨hv, _⟩, heq⟩ => ⟨hv, heq⟩⟩
  obtain ⟨hget, hheld⟩ := get?_of_cell h
  rw [equalField_of_cell hr h] at heq
  cases v with
  | null => cases held <;> simp [Json.equalScalar, Json.same, Json.isNull] at heq hheld
  | bool | number | string | array | object => rfl

theorem member_none (values : List Json) : e.member none values ≠ some true := by
  rw [Engine.member, Ne, Truth.any_eq_true]
  rintro ⟨t, ht, rfl⟩
  obtain ⟨v, _, hv⟩ := List.mem_map.mp ht
  cases hv

theorem member_listed (he : e.Agrees) (hr : record.IsScalar) {held : Json}
    (hcell : cell record field = some held) {items : List Json}
    (hitems : ∀ v ∈ items, v.IsScalar) (hfit : ∀ v ∈ items, record.Fits field v) (b : Bool) :
    e.member (some held) (listed items) = some b ↔
      (listed items).any (Json.equalField (record.get? field)) = b := by
  have hcompared : ∀ v ∈ listed items,
      e.compared (some held) .eq v = some (Json.equalField (record.get? field) v) := by
    intro v hv
    obtain ⟨hmem, hnull⟩ := mem_listed.mp hv
    exact compared_eq he hr hcell (hitems v hmem) (hfit v hmem) hnull
  rw [Engine.member, List.map_congr_left hcompared]
  cases b with
  | true => simp [Truth.any_eq_true]
  | false => simp [Truth.any_eq_false]

/-- A membership is true of the rows whose value the list has, and of those without one if
the list has null. -/
theorem truth_memberReading (he : e.Agrees) (hr : record.IsScalar) {items : List Json}
    (hitems : ∀ v ∈ items, v.IsScalar) (hfit : ∀ v ∈ items, record.Fits field v) :
    (memberReading field items).truth e record = some true ↔
      items.any (Json.equalField (record.get? field)) = true := by
  rw [memberReading]
  cases hcell : cell record field with
  | none =>
      rw [any_equalField_of_cell_eq_none hcell]
      cases hempty : (items.filter fun v => !v.isNull).isEmpty <;>
        cases hnulls : items.any Json.isNull <;>
          simp [Expression.truth, Expression.truthOfAll, Truth.any_pair_eq_true, hcell, member_none]
  | some held =>
      have hmember := member_listed he hr hcell hitems hfit true
      rw [any_equalField_of_cell hr hcell, ← hmember]
      rw [listed] at hmember ⊢
      cases hempty : (items.filter fun v => !v.isNull).isEmpty with
      | true =>
          rw [hmember, List.isEmpty_iff.mp hempty]
          cases items.any Json.isNull <;> simp [Expression.truth, hcell]
      | false =>
          cases items.any Json.isNull <;>
            simp [Expression.truth, Expression.truthOfAll, Truth.any_pair_eq_true, hcell]

/-- A denied membership is true of the rows whose value the list does not have, and of
those without one unless the list has null. -/
theorem truth_strangerReading (he : e.Agrees) (hr : record.IsScalar) {items : List Json}
    (hitems : ∀ v ∈ items, v.IsScalar) (hfit : ∀ v ∈ items, record.Fits field v) :
    (strangerReading field items).truth e record = some true ↔
      items.any (Json.equalField (record.get? field)) = false := by
  rw [strangerReading]
  cases hcell : cell record field with
  | none =>
      rw [any_equalField_of_cell_eq_none hcell]
      cases hempty : (items.filter fun v => !v.isNull).isEmpty <;>
        cases hnulls : items.any Json.isNull <;>
          simp [Expression.truth, Expression.truthOfAll, Truth.any_pair_eq_true,
            Truth.all_pair_eq_true, hcell]
  | some held =>
      have hmember := member_listed he hr hcell hitems hfit false
      rw [any_equalField_of_cell hr hcell, ← hmember]
      rw [listed] at hmember ⊢
      cases hempty : (items.filter fun v => !v.isNull).isEmpty with
      | true =>
          rw [hmember, List.isEmpty_iff.mp hempty]
          cases items.any Json.isNull <;> simp [Expression.truth, hcell]
      | false =>
          cases items.any Json.isNull <;>
            simp [Expression.truth, Expression.truthOfAll, Truth.any_pair_eq_true,
              Truth.all_pair_eq_true, Truth.negation_eq_true, hcell]

/-! ## Tests -/

theorem castText?_cell (hr : record.IsScalar) :
    (cell record field).bind Sql.castText? = (record.get? field).bind Json.patternText? := by
  cases hcell : cell record field with
  | none => rcases get?_of_cell_eq_none hcell with hget | hget <;> rw [hget] <;> rfl
  | some held =>
      obtain ⟨hget, hheld⟩ := get?_of_cell hcell
      have hscalar := hr field held hget
      rw [hget]
      match held with
      | .string _ | .number (.int _) | .bool true | .bool false => rfl
      | .null => simp [Json.isNull] at hheld
      | .array _ | .object _ | .number (.float _) => exact absurd hscalar (by simp [Json.IsScalar])

theorem isNone_cell (hr : record.IsScalar) :
    (cell record field).isNone = Json.equalField (record.get? field) .null := by
  cases hcell : cell record field with
  | none => rw [equalField_of_cell_eq_none hcell]; rfl
  | some held =>
      rw [equalField_of_cell hr hcell]
      have hheld := (get?_of_cell hcell).2
      cases held <;> simp [Json.isNull, Json.equalScalar, Json.same] at hheld ⊢

theorem truth_equalReading (he : e.Agrees) (hr : record.IsScalar) {w : Json} (hw : w.IsScalar)
    (hfit : record.Fits field w) :
    (testReading field .eq w).truth e record = some true ↔
      Json.equalField (record.get? field) w = true := by
  cases hnull : w.isNull with
  | true =>
      cases w <;> simp [Json.isNull] at hnull
      simp [testReading, Expression.truth, isNone_cell hr]
  | false =>
      have hreading : testReading field .eq w = .compared field .eq w := by
        cases w <;> first | rfl | simp [Json.isNull] at hnull
      rw [hreading, Expression.truth]
      exact compared_eq_iff he hr hw hfit hnull

theorem truth_differReading (he : e.Agrees) (hr : record.IsScalar) {w : Json} (hw : w.IsScalar)
    (hfit : record.Fits field w) :
    (testReading field .ne w).truth e record = some true ↔
      Json.equalField (record.get? field) w = false := by
  cases hnull : w.isNull with
  | true =>
      cases w <;> simp [Json.isNull] at hnull
      rw [← isNone_cell hr]
      cases hcell : cell record field <;> simp [testReading, Expression.truth, hcell]
  | false =>
      have hreading : testReading field .ne w = .distinct field w := by
        cases w <;> first | rfl | simp [Json.isNull] at hnull
      rw [hreading, Expression.truth]
      cases hcell : cell record field with
      | none => simp [equalField_of_cell_eq_none hcell, hnull]
      | some held =>
          obtain ⟨hget, hheld⟩ := get?_of_cell hcell
          obtain ⟨o, -, heo, heq⟩ :=
            order?_of_kindRank he (hr field held hget) hw (hfit hnull held hget hheld) hnull
          simp [equalField_of_cell hr hcell, heo, heq]

theorem truth_flatCondition (he : e.Agrees) (hr : record.IsScalar) {op : Comparison}
    {constant : Json} {test : Condition} (ht : op.Takes constant)
    (hfit : ∀ v ∈ op.compared constant, record.Fits field v)
    (h : Criteria.flatCondition op field constant = .ok test) :
    test.reading.truth e record = some true ↔ op.holds constant (record.get? field) = true := by
  cases op with
  | gt | gte | lt | lte =>
      cases h
      exact compared_eq_true_iff he hr ht (hfit constant (List.mem_singleton_self _)) fun _ => rfl
  | eq =>
      cases h
      exact truth_equalReading he hr ht (hfit constant (List.mem_singleton_self _))
  | ne =>
      cases h
      rw [reading, Comparison.holds, Bool.not_eq_true']
      exact truth_differReading he hr ht (hfit constant (List.mem_singleton_self _))
  | isIn =>
      obtain ⟨items, rfl, hitems⟩ := ht
      cases h
      exact truth_memberReading he hr hitems hfit
  | notIn =>
      obtain ⟨items, rfl, hitems⟩ := ht
      cases h
      rw [Comparison.holds, Json.array?, Option.any_some, Bool.not_eq_true']
      exact truth_strangerReading he hr hitems hfit
  | like =>
      obtain ⟨pattern, hread, rfl⟩ := map_eq_ok.mp h
      obtain ⟨text, regex, rfl, rfl, hparse⟩ := Criteria.readLike_eq_ok hread
      simp only [reading, testReading, Expression.truth, Comparison.holds, hparse,
        castText?_cell hr]
      cases (record.get? field).bind Json.patternText? with
      | none => simp
      | some value => simp [he.hasMatch _ _ hparse]

end Field

namespace Criteria

/-! ## Trees -/

mutual

/-- The condition of criteria is true of the rows of the records that they select. -/
theorem truth_lowerCondition {e : Engine} (he : e.Agrees) {record : Record} (hr : record.IsScalar)
    {c : Criteria} {w : Condition} (hc : c.Flat) (hs : c.Suits record)
    (h : c.lowerCondition = .ok w) :
    w.reading.truth e record = some true ↔ c.selects record = true := by
  match c with
  | .compare op field constant =>
      rw [Flat] at hc
      rw [Suits] at hs
      rw [lowerCondition, hc.1] at h
      obtain ⟨⟨⟩, -, h⟩ := bind_eq_ok.mp h
      rw [selects, Matcher.fieldAt_flat hc.1]
      exact truth_flatCondition he hr hc.2 hs h
  | .between field lower upper =>
      rw [Flat] at hc
      rw [Suits] at hs
      rw [lowerCondition] at h
      obtain ⟨⟨⟩, -, h⟩ := bind_eq_ok.mp h
      cases h
      rw [selects, Matcher.fieldAt_flat hc.1, Bool.and_eq_true]
      rw [reading, Expression.truth]
      exact Truth.all_pair_eq_true.trans (and_congr
        (compared_eq_true_iff he hr hc.2.1 hs.1 fun _ => rfl)
        (compared_eq_true_iff he hr hc.2.2 hs.2 fun _ => rfl))
  | .logical op [] =>
      simp only [lowerCondition, reduceCtorEq] at h
  | .logical op (first :: rest) =>
      rw [Flat] at hc
      rw [Suits] at hs
      simp only [lowerCondition] at h
      obtain ⟨parts, hparts, h⟩ := bind_eq_ok.mp h
      obtain ⟨hall, hany⟩ := truth_lowerConditions he hr hc hs hparts
      cases op with
      | and =>
          cases h
          rw [reading, Expression.truth, Truth.all_eq_true, selects]
          exact hall
      | or =>
          cases h
          rw [reading, Expression.truth, Truth.any_eq_true, selects]
          exact hany

theorem truth_lowerConditions {e : Engine} (he : e.Agrees) {record : Record} (hr : record.IsScalar)
    {cs : List Criteria} {ws : List Condition} (hc : AllFlat cs) (hs : AllSuit record cs)
    (h : lowerConditions cs = .ok ws) :
    ((∀ t ∈ Expression.truthOfAll e record (readings ws), t = some true) ↔
      selectsAll record cs = true) ∧
    ((∃ t ∈ Expression.truthOfAll e record (readings ws), t = some true) ↔
      selectsAny record cs = true) := by
  match cs with
  | [] =>
      cases h
      simp [Expression.truthOfAll, Sql.Condition.readings, selectsAll, selectsAny]
  | c :: cs =>
      rw [AllFlat] at hc
      rw [AllSuit] at hs
      rw [lowerConditions] at h
      obtain ⟨w, hw, h⟩ := bind_eq_ok.mp h
      obtain ⟨ws, hws, h⟩ := bind_eq_ok.mp h
      cases h
      have hfirst := truth_lowerCondition he hr hc.1 hs.1 hw
      obtain ⟨hall, hany⟩ := truth_lowerConditions he hr hc.2 hs.2 hws
      rw [readings, Expression.truthOfAll, selectsAll, selectsAny, List.forall_mem_cons,
        Bool.and_eq_true, Bool.or_eq_true]
      refine ⟨and_congr hfirst hall, ?_⟩
      simp only [List.mem_cons, exists_eq_or_imp]
      exact or_congr hfirst hany

end

mutual

theorem equalsValues_of_flat {c : Criteria} (h : c.Flat) : c.EqualsValues := by
  match c with
  | .compare op field constant =>
      rw [Flat] at h
      rw [EqualsValues]
      rintro rfl
      have hscalar : constant.IsScalar := h.2
      cases constant <;> first | rfl | exact absurd hscalar (by simp [Json.IsScalar])
  | .between field lower upper => rw [EqualsValues]; trivial
  | .logical op operands =>
      rw [Flat] at h
      rw [EqualsValues]
      exact allEqualValues_of_allFlat h

theorem allEqualValues_of_allFlat {cs : List Criteria} (h : AllFlat cs) : AllEqualValues cs := by
  match cs with
  | [] => trivial
  | c :: cs =>
      rw [AllFlat] at h
      rw [AllEqualValues]
      exact ⟨equalsValues_of_flat h.1, allEqualValues_of_allFlat h.2⟩

end

/-- Both dialects take the same criteria over fields without points, and what they make of
them selects the same records. -/
theorem dialects_agree {e : Engine} (he : e.Agrees) {c : Criteria} (hc : c.Flat)
    {record : Record} (hr : record.IsScalar) (hs : c.Suits record) :
    ((∃ f, Criteria.filter (some c) = .ok f) ↔ ∃ w, condition (some c) = .ok w) ∧
      ∀ f w, Criteria.filter (some c) = .ok f → condition (some c) = .ok w →
        w.reading.words = w.expression ∧
        ∃ m, Matcher.ofFilter f = .ok m ∧
          (m.accepts record = true ↔ w.reading.truth e record = some true) := by
  refine ⟨?_, fun f w hf hw => ⟨Condition.words_reading w, ?_⟩⟩
  · have hrefusal := filter_refusal hc
    cases hf : Criteria.filter (some c) <;> cases hw : condition (some c) <;>
      simp [hf, hw, Except.map] at hrefusal ⊢
  · obtain ⟨m, hm, haccepts⟩ := ofFilter_filter hf (equalsValues_of_flat hc)
    obtain ⟨⟨⟩, -, hlower⟩ := bind_eq_ok.mp hw
    refine ⟨m, hm, ?_⟩
    rw [haccepts, truth_lowerCondition he hr hc hs hlower]

/-- A list with null takes in the record that has null there, by the arm for null alone. -/
theorem dialects_agree_nullInList :
    let c : Criteria := .logical .and [.compare .isIn "age" (.array [.null, .number (.int 3)]),
      .logical .or [.compare .ne "name" (.string "ann"), .compare .like "name" (.string "a%")]]
    let record : Record := ⟨[("name", .string "ann"), ("age", .null)]⟩
    Engine.plain.Agrees ∧ c.Flat ∧ record.IsScalar ∧ c.Suits record ∧
      ∃ f w m, Criteria.filter (some c) = .ok f ∧ condition (some c) = .ok w ∧
        Matcher.ofFilter f = .ok m ∧ m.accepts record = true ∧
        w.reading.truth Engine.plain record = some true := by
  intro c record
  have hc : c.Flat := by
    simp [c, Flat, AllFlat, Comparison.Takes, Json.IsScalar]
    decide
  have hr : record.IsScalar := by
    intro field held h
    simp only [record, Record.get?, Record.lookup_cons_ite, List.lookup_nil] at h
    split at h
    · cases h; trivial
    · split at h <;> cases h; trivial
  have hs : c.Suits record := by
    simp [c, record, Suits, AllSuit, Comparison.compared, Record.Fits, Record.get?, Json.array?,
      Json.isNull, Json.kindRank, Record.lookup_cons_ite]
  obtain ⟨m, hm, hsame⟩ := ((dialects_agree Engine.plain_agrees hc hr hs).2 _ _ rfl rfl).2
  exact ⟨Engine.plain_agrees, hc, hr, hs, _, _, m, rfl, rfl, hm, hsame.mpr rfl, rfl⟩

end Criteria

end Grove
