import Grove.Proofs.Criteria.Values
import Grove.Proofs.Decimal.Rounding
import Grove.Proofs.Sql.Expression

/-!
# Integers in criteria

Documents compare integers by their nearest binary64 numbers and tables compare them as they
are. The two ways agree as long as the numbers keep the integers apart, and since rounding
keeps their order, that is all it takes: for an integer in a field, every test against given
constants is answered exactly if each of the constants is that integer or has another nearest
number, and otherwise one of the tests is not (`integers_exact_iff`). Integers below 2^53 are
kept apart from all others. Above that neighbours need not be.
-/

namespace Grove

open Matcher (fieldAt)
open Sql (Engine Truth Expression cell)

/-! ## Integers that are written -/

/-- The integers that text is read as: they have a sign and 63 binary digits, or no sign and
64 of them. -/
def Number.IsWritten (n : Int) : Prop := -0x8000000000000000 ≤ n ∧ n ≤ 0xFFFFFFFFFFFFFFFF

instance (n : Int) : Decidable (Number.IsWritten n) :=
  inferInstanceAs (Decidable (_ ∧ _))

namespace Number

/-- Two integers have different nearest numbers. -/
def Apart (a b : Int) : Prop := (Double.ofInt a).same (Double.ofInt b) = false

instance (a b : Int) : Decidable (Apart a b) := inferInstanceAs (Decidable (_ = _))

variable {a b : Int}

theorem IsWritten.log2_le (h : IsWritten a) : a.natAbs.log2 ≤ 1022 := by
  by_cases hzero : a.natAbs = 0
  · rw [hzero]
    exact Nat.zero_le _
  · have hfew : a.natAbs.log2 < 64 := (Nat.log2_lt hzero).mpr (by
      rw [IsWritten] at h
      omega)
    omega

theorem cmp_int : (int a).cmp (int b) = compare (Double.ofInt a).scaled (Double.ofInt b).scaled :=
  rfl

/-- Integers that are kept apart have the order of their nearest numbers. -/
theorem cmp_int_of_apart (ha : IsWritten a) (hb : IsWritten b) (h : a ≠ b → Apart a b) :
    (int a).cmp (int b) = compare a b := by
  rw [cmp_int]
  rcases Int.lt_trichotomy a b with hlt | heq | hgt
  · have hle := Double.scaled_ofInt_mono ha.log2_le hb.log2_le (Int.le_of_lt hlt)
    have hne : (Double.ofInt a).scaled ≠ (Double.ofInt b).scaled := by
      simpa [Apart, Double.same] using h (Int.ne_of_lt hlt)
    rw [Int.compare_eq_lt.mpr hlt, Int.compare_eq_lt.mpr (Int.lt_iff_le_and_ne.mpr ⟨hle, hne⟩)]
  · rw [heq, Int.compare_eq_eq.mpr rfl, Int.compare_eq_eq.mpr rfl]
  · have hle := Double.scaled_ofInt_mono hb.log2_le ha.log2_le (Int.le_of_lt hgt)
    have hne : (Double.ofInt a).scaled ≠ (Double.ofInt b).scaled := by
      simpa [Apart, Double.same] using h (Int.ne_of_gt hgt)
    rw [Int.compare_eq_gt.mpr hgt, Int.compare_eq_gt.mpr (Int.lt_iff_le_and_ne.mpr ⟨hle, hne.symm⟩)]

theorem Apart.symm (h : Apart a b) : Apart b a := by
  rw [Apart, Double.same, beq_eq_false_iff_ne] at h ⊢
  exact h.symm

/-- An integer below 2^53 is kept apart from its neighbours, and so from all other integers. -/
theorem apart_of_log2_le (ha : a.natAbs.log2 ≤ 1022) (hb : b.natAbs < 0x20000000000000)
    (h : a ≠ b) : Apart a b := by
  have hmono {n : Int} (hn : n.natAbs.log2 ≤ 1022) :
      (a ≤ n → (Double.ofInt a).scaled ≤ (Double.ofInt n).scaled) ∧
        (n ≤ a → (Double.ofInt n).scaled ≤ (Double.ofInt a).scaled) :=
    ⟨Double.scaled_ofInt_mono ha hn, Double.scaled_ofInt_mono hn ha⟩
  clear ha
  -- The unit is kept as a variable, or the power of two would be computed.
  obtain ⟨unit, hunit⟩ : ∃ unit : Int, unit = twoTo 1074 := ⟨_, rfl⟩
  have hpos : 0 < unit := hunit ▸ Int.natCast_pos.mpr (twoTo_pos 1074)
  have hexact {n : Int} (hn : n.natAbs ≤ 0x20000000000000) :
      n.natAbs.log2 ≤ 1022 ∧ (Double.ofInt n).scaled = n * unit := by
    refine ⟨IsWritten.log2_le ?_, hunit ▸ Double.scaled_ofInt hn⟩
    rw [IsWritten]
    omega
  rw [Apart, Double.same, beq_eq_false_iff_ne, (hexact (Nat.le_of_lt hb)).2]
  rcases Int.lt_or_gt_of_ne h with hlt | hgt
  · obtain ⟨hnext, hbelow⟩ := hexact (n := b - 1) (by omega)
    have hle := (hmono hnext).1 (by omega)
    rw [hbelow, Int.sub_mul] at hle
    omega
  · obtain ⟨hnext, habove⟩ := hexact (n := b + 1) (by omega)
    have hle := (hmono hnext).2 (by omega)
    rw [habove, Int.add_mul] at hle
    omega

theorem apart_of_small (ha : IsWritten a) (hb : b.natAbs < 0x20000000000000) (h : a ≠ b) :
    Apart a b := apart_of_log2_le ha.log2_le hb h

end Number

/-! ## Tests -/

namespace Comparison

def single : List Comparison := [.eq, .ne, .gt, .gte, .lt, .lte]

/-- What a comparison with one value says of a field that is ordered so to the value. -/
def admits : Comparison → Ordering → Bool
  | .eq, o => o == .eq
  | .ne, o => o != .eq
  | .gt, o => o == .gt
  | .gte, o => o != .lt
  | .lt, o => o == .lt
  | .lte, o => o != .gt
  | .isIn, _ | .notIn, _ | .like, _ => false

end Comparison

/-- A test of an integer against integer constants. -/
inductive IntegerTest where
  | single (op : Comparison) (h : op ∈ Comparison.single) (constant : Int)
  | among (constants : List Int)
  | notAmong (constants : List Int)
  | within (lower upper : Int)

namespace IntegerTest

def criteria (field : String) : IntegerTest → Criteria
  | .single op _ b => .compare op field (.ofInt b)
  | .among bs => .compare .isIn field (.array (bs.map .ofInt))
  | .notAmong bs => .compare .notIn field (.array (bs.map .ofInt))
  | .within lower upper => .between field (.ofInt lower) (.ofInt upper)

def constants : IntegerTest → List Int
  | .single _ _ b => [b]
  | .among bs | .notAmong bs => bs
  | .within lower upper => [lower, upper]

/-- Whether the test holds of something that is ordered so to the constants. -/
def holds (order : Int → Ordering) : IntegerTest → Bool
  | .single op _ b => op.admits (order b)
  | .among bs => (bs.map order).any (· == .eq)
  | .notAmong bs => !(bs.map order).any (· == .eq)
  | .within lower upper => order lower != .lt && order upper != .gt

variable {t : IntegerTest}

theorem holds_congr {order order' : Int → Ordering} (h : ∀ b ∈ t.constants, order b = order' b) :
    t.holds order = t.holds order' := by
  cases t with
  | single op _ b => rw [holds, holds, h b (List.mem_singleton_self b)]
  | among bs | notAmong bs =>
      rw [constants] at h
      rw [holds, holds, List.map_congr_left h]
  | within lower upper =>
      rw [holds, holds, h lower (by simp [constants]), h upper (by simp [constants])]

/-! ## Documents -/

variable {field : String} {record : Record} {a : Int}

theorem equalField_ofInt (a b : Int) :
    Json.equalField (some (.ofInt a)) (.ofInt b) = ((Number.int a).cmp (.int b) == .eq) := by
  rw [Number.cmp_int]
  exact Bool.eq_iff_iff.mpr (by
    simp [Json.ofInt, Json.equalField, Json.equalScalar, Double.same, Number.toDouble])

theorem order?_ofInt (a b : Int) :
    (Json.ofInt a).order? (.ofInt b) = some ((Number.int a).cmp (.int b)) := rfl

theorem holds_ofInt {op : Comparison} (h : op ∈ Comparison.single) (a b : Int) :
    op.holds (.ofInt b) (some (.ofInt a)) = op.admits ((Number.int a).cmp (.int b)) := by
  simp only [Comparison.single, List.mem_cons, List.not_mem_nil, or_false] at h
  rcases h with rfl | rfl | rfl | rfl | rfl | rfl
  · rw [Comparison.holds, equalField_ofInt, Comparison.admits]
  · rw [Comparison.holds, equalField_ofInt, Comparison.admits, bne]
  all_goals rw [Comparison.holds, Option.bind_some, order?_ofInt, Option.any_some,
    Comparison.admits]

theorem any_equalField_ofInt (a : Int) (bs : List Int) :
    (bs.map Json.ofInt).any (Json.equalField (some (.ofInt a))) =
      (bs.map fun b => (Number.int a).cmp (.int b)).any (· == .eq) := by
  simp only [List.any_map, Function.comp_def, equalField_ofInt]

/-- Documents answer by the nearest numbers. -/
theorem selects_criteria (hheld : fieldAt record (Text.split '.' field) = some (.ofInt a)) :
    (t.criteria field).selects record = t.holds fun b => (Number.int a).cmp (.int b) := by
  cases t with
  | single op h b => rw [criteria, Criteria.selects, hheld, holds_ofInt h, holds]
  | among bs =>
      rw [criteria, Criteria.selects, hheld, holds, ← any_equalField_ofInt]
      rfl
  | notAmong bs =>
      rw [criteria, Criteria.selects, hheld, holds, ← any_equalField_ofInt]
      rfl
  | within lower upper =>
      rw [criteria, Criteria.selects, hheld, holds_ofInt (by decide), holds_ofInt (by decide)]
      rfl

theorem checkHeight_criteria (t : IntegerTest) (field : String) :
    (t.criteria field).checkHeight = .ok () := by
  refine (Criteria.checkHeight_eq_ok_iff _).mpr ?_
  cases t <;> simp [criteria, Criteria.levels, Criteria.maxHeight]

theorem equalsValues_criteria (t : IntegerTest) (field : String) :
    (t.criteria field).EqualsValues := by
  cases t with
  | single op h b => exact fun _ => rfl
  | among bs | notAmong bs => exact fun _ => rfl
  | within lower upper => trivial

theorem toFilter_criteria (hname : Criteria.checkName field = .ok ()) (t : IntegerTest) :
    ∃ filter, (t.criteria field).toFilter = .ok filter := by
  cases t with
  | single op h b =>
      obtain ⟨asked, hasked⟩ : ∃ asked, Criteria.fieldCheck op (.ofInt b) = .ok asked := by
        simp only [Comparison.single, List.mem_cons, List.not_mem_nil, or_false] at h
        rcases h with rfl | rfl | rfl | rfl | rfl | rfl <;> exact ⟨_, rfl⟩
      refine ⟨.object [(field, asked)], ?_⟩
      simp only [criteria, Criteria.toFilter, hname, hasked]
      rfl
  | among bs =>
      refine ⟨.object [(field, .object [("$in", .array (bs.map .ofInt))])], ?_⟩
      simp only [criteria, Criteria.toFilter, hname]
      rfl
  | notAmong bs =>
      refine ⟨.object [(field, .object [("$nin", .array (bs.map .ofInt))])], ?_⟩
      simp only [criteria, Criteria.toFilter, hname]
      rfl
  | within lower upper =>
      refine ⟨.object [(field, .object [("$gte", .ofInt lower), ("$lte", .ofInt upper)])], ?_⟩
      simp only [criteria, Criteria.toFilter, hname]
      rfl

theorem exists_ofCriteria (hname : Criteria.checkName field = .ok ()) (t : IntegerTest) :
    ∃ m, Matcher.ofCriteria (some (t.criteria field)) = .ok m ∧
      ∀ record, m.accepts record = (t.criteria field).selects record := by
  obtain ⟨filter, htoFilter⟩ := toFilter_criteria hname t
  have hfilter : Criteria.filter (some (t.criteria field)) = .ok filter := by
    rw [Criteria.filter, checkHeight_criteria, htoFilter]
    rfl
  obtain ⟨m, hm, haccepts⟩ := Criteria.ofFilter_filter hfilter (equalsValues_criteria t field)
  exact ⟨m, by rw [Matcher.ofCriteria, hfilter]; simp only [hm], haccepts⟩

/-! ## Tables -/

theorem compare_numberValue (a b : Int) :
    compare (Sql.numberValue (.int a)) (Sql.numberValue (.int b)) = compare a b := by
  obtain ⟨unit, hunit⟩ : ∃ unit : Int, unit = twoTo 1074 := ⟨_, rfl⟩
  have hpos : 0 < unit := hunit ▸ Int.natCast_pos.mpr (twoTo_pos 1074)
  rw [Sql.numberValue, Sql.numberValue, ← hunit]
  rcases Int.lt_trichotomy a b with hlt | rfl | hgt
  · rw [Int.compare_eq_lt.mpr hlt, Int.compare_eq_lt.mpr (Int.mul_lt_mul_of_pos_right hlt hpos)]
  · rw [Int.compare_eq_eq.mpr rfl, Int.compare_eq_eq.mpr rfl]
  · rw [Int.compare_eq_gt.mpr hgt, Int.compare_eq_gt.mpr (Int.mul_lt_mul_of_pos_right hgt hpos)]

section Tables

variable (e : Engine)

theorem engine_order?_ofInt (a b : Int) :
    e.order? (.ofInt a) (.ofInt b) = some (compare a b) := by
  rw [Json.ofInt, Json.ofInt, Engine.order?, compare_numberValue]

theorem compared_ofInt (op : Sql.Operator) (a b : Int) :
    e.compared (some (.ofInt a)) op (.ofInt b) = op.admits (compare a b) := by
  rw [Engine.compared, Option.bind_some, engine_order?_ofInt, Option.bind_some]

theorem member_ofInt (a : Int) (bs : List Int) :
    e.member (some (.ofInt a)) (bs.map .ofInt) = some ((bs.map (compare a)).any (· == .eq)) := by
  rw [Engine.member]
  induction bs with
  | nil => rfl
  | cons b bs ih =>
      rw [List.map_cons, List.map_cons, List.map_cons, List.any_cons, Truth.any, List.foldr_cons,
        ← Truth.any, ih, compared_ofInt, Sql.Operator.admits]
      cases compare a b == .eq <;> cases (bs.map (compare a)).any (· == .eq) <;> rfl

theorem truth_single {op : Comparison} (h : op ∈ Comparison.single)
    (hcell : cell record field = some (.ofInt a)) (b : Int) :
    ∃ w, Criteria.flatCondition op field (.ofInt b) = .ok w ∧
      ∀ e : Engine, w.reading.truth e record = some (op.admits (compare a b)) := by
  have hcompared (e : Engine) (column : Sql.Operator) :
      (Expression.compared field column (.ofInt b)).truth e record =
        column.admits (compare a b) := by
    rw [Expression.truth, hcell, compared_ofInt]
  simp only [Comparison.single, List.mem_cons, List.not_mem_nil, or_false] at h
  rcases h with rfl | rfl | rfl | rfl | rfl | rfl
  case inr.inl =>
    refine ⟨.test field .ne (.ofInt b), rfl, fun e => ?_⟩
    change (Expression.distinct field (.ofInt b)).truth e record = _
    simp only [Expression.truth, hcell, engine_order?_ofInt]
    cases compare a b <;> rfl
  all_goals exact ⟨_, rfl, fun e => hcompared e _⟩

theorem any_isNull_ofInt (bs : List Int) : (bs.map Json.ofInt).any Json.isNull = false := by
  simp [List.any_map, Json.ofInt, Json.isNull]

theorem filter_ofInt (bs : List Int) :
    ((bs.map Json.ofInt).filter fun v => !v.isNull) = bs.map .ofInt := by
  simp [List.filter_eq_self, Json.ofInt, Json.isNull]

theorem truth_memberReading_ofInt (hcell : cell record field = some (.ofInt a)) (bs : List Int) :
    (Sql.Condition.memberReading field (bs.map .ofInt)).truth e record =
      some ((bs.map (compare a)).any (· == .eq)) := by
  rw [Sql.Condition.memberReading, any_isNull_ofInt, filter_ofInt]
  cases bs with
  | nil => rfl
  | cons b bs =>
      change (Expression.among field ((b :: bs).map Json.ofInt)).truth e record = _
      rw [Expression.truth, hcell, member_ofInt]

theorem truth_strangerReading_ofInt (hcell : cell record field = some (.ofInt a)) (bs : List Int) :
    (Sql.Condition.strangerReading field (bs.map .ofInt)).truth e record =
      some (!(bs.map (compare a)).any (· == .eq)) := by
  rw [Sql.Condition.strangerReading, any_isNull_ofInt, filter_ofInt]
  cases bs with
  | nil => rfl
  | cons b bs =>
      change (Expression.or [.isNull field, .notAmong field ((b :: bs).map Json.ofInt)]).truth
        e record = _
      rw [Expression.truth, Expression.truthOfAll, Expression.truthOfAll, Expression.truth,
        Expression.truth, hcell, member_ofInt]
      cases ((b :: bs).map (compare a)).any (· == .eq) <;> rfl

/-- Tables answer by the integers. -/
theorem truth_criteria (hname : Criteria.checkName field = .ok ())
    (hplain : Text.has field '.' = false) (hheld : record.get? field = some (.ofInt a))
    (t : IntegerTest) :
    ∃ w, Criteria.condition (some (t.criteria field)) = .ok w ∧
      ∀ e : Engine, w.reading.truth e record = some (t.holds (compare a)) := by
  have hheight := checkHeight_criteria t field
  have hcell : cell record field = some (.ofInt a) := by
    rw [cell, hheld]
    rfl
  cases t with
  | single op h b =>
      obtain ⟨w, hw, htruth⟩ := truth_single h hcell b
      refine ⟨w, ?_, htruth⟩
      rw [Criteria.condition, hheight, criteria]
      simp only [Criteria.lowerCondition, hname, hplain, hw]
      rfl
  | among bs =>
      refine ⟨.test field .isIn (.array (bs.map .ofInt)), ?_,
        fun e => truth_memberReading_ofInt e hcell bs⟩
      rw [Criteria.condition, hheight, criteria]
      simp only [Criteria.lowerCondition, hname, hplain]
      rfl
  | notAmong bs =>
      refine ⟨.test field .notIn (.array (bs.map .ofInt)), ?_,
        fun e => truth_strangerReading_ofInt e hcell bs⟩
      rw [Criteria.condition, hheight, criteria]
      simp only [Criteria.lowerCondition, hname, hplain]
      rfl
  | within lower upper =>
      refine ⟨.and [.test field .gte (.ofInt lower), .test field .lte (.ofInt upper)], ?_,
        fun e => ?_⟩
      · rw [Criteria.condition, hheight, criteria]
        simp only [Criteria.lowerCondition, hname]
        rfl
      · change Truth.all [(Expression.compared field .gte (.ofInt lower)).truth e record,
          (Expression.compared field .lte (.ofInt upper)).truth e record] = _
        rw [Expression.truth, Expression.truth, hcell, compared_ofInt, compared_ofInt, holds]
        cases compare a lower <;> cases compare a upper <;> rfl

end Tables

end IntegerTest

/-- For an integer in a field, documents answer all tests against the given constants as they
are exactly if each of the constants is the integer itself or has another nearest number. In
any case they answer by the nearest numbers, and tables answer by the integers. An integer
below 2^53 has a nearest number that no other integer has. -/
theorem integers_exact_iff {field : String} (hname : Criteria.checkName field = .ok ()) {a : Int}
    (ha : Number.IsWritten a) {bs : List Int} (hbs : ∀ b ∈ bs, Number.IsWritten b)
    {record : Record} (hheld : fieldAt record (Text.split '.' field) = some (.ofInt a)) :
    ((∀ t : IntegerTest, (∀ b ∈ t.constants, b ∈ bs) →
        ∃ m, Matcher.ofCriteria (some (t.criteria field)) = .ok m ∧
          m.accepts record = t.holds (compare a)) ↔
      ∀ b ∈ bs, a ≠ b → Number.Apart a b) ∧
    (∀ t : IntegerTest, ∃ m, Matcher.ofCriteria (some (t.criteria field)) = .ok m ∧
      m.accepts record = t.holds fun b => (Number.int a).cmp (.int b)) ∧
    (∀ b, Number.IsWritten b → a ≠ b →
      a.natAbs < 0x20000000000000 ∨ b.natAbs < 0x20000000000000 → Number.Apart a b) ∧
    (Text.has field '.' = false → ∀ t : IntegerTest,
      ∃ w, Criteria.condition (some (t.criteria field)) = .ok w ∧
        ∀ e : Engine, w.reading.truth e record = some (t.holds (compare a))) := by
  have hrounded (t : IntegerTest) : ∃ m, Matcher.ofCriteria (some (t.criteria field)) = .ok m ∧
      m.accepts record = t.holds fun b => (Number.int a).cmp (.int b) := by
    obtain ⟨m, hm, haccepts⟩ := IntegerTest.exists_ofCriteria hname t
    exact ⟨m, hm, (haccepts record).trans (IntegerTest.selects_criteria hheld)⟩
  refine ⟨⟨fun hexact b hb hne => ?_, fun hapart t ht => ?_⟩, hrounded, ?_, fun hplain t => ?_⟩
  · -- Equality with the constant is a test of its own, and it says whether the two are apart.
    obtain ⟨m, hm, hexact⟩ := hexact (.single .eq (by decide) b) fun c hc => by
      rwa [List.mem_singleton.mp hc]
    obtain ⟨m', hm', hrounded⟩ := hrounded (.single .eq (by decide) b)
    cases hm.symm.trans hm'
    have hunequal : (compare a b == .eq) = false := by simpa [Int.compare_eq_eq] using hne
    rw [hexact, IntegerTest.holds, Comparison.admits, IntegerTest.holds, Comparison.admits,
      hunequal] at hrounded
    simpa [Number.Apart, Double.same, Number.cmp_int, Int.compare_eq_eq] using hrounded.symm
  · obtain ⟨m, hm, haccepts⟩ := hrounded t
    refine ⟨m, hm, haccepts.trans (IntegerTest.holds_congr fun b hb => ?_)⟩
    exact Number.cmp_int_of_apart ha (hbs b (ht b hb)) (hapart b (ht b hb))
  · rintro b hb hne (hsmall | hsmall)
    · exact (Number.apart_of_small hb hsmall hne.symm).symm
    · exact Number.apart_of_small ha hsmall hne
  · rw [Matcher.fieldAt_flat hplain] at hheld
    exact IntegerTest.truth_criteria hname hplain hheld t

/-- The greatest signed integer is told from small ones and from the least one, and in a table
from its neighbour. -/
theorem integers_exact_iff_greatest :
    let a : Int := 0x7FFFFFFFFFFFFFFF
    let bs : List Int := [7, -0x8000000000000000]
    let record : Record := ⟨[("serial", .ofInt a)]⟩
    let between : IntegerTest := .within 7 (-0x8000000000000000)
    Criteria.checkName "serial" = .ok () ∧ Number.IsWritten a ∧
    (∀ b ∈ bs, Number.IsWritten b) ∧
    fieldAt record (Text.split '.' "serial") = some (.ofInt a) ∧
    ∃ m, Matcher.ofCriteria (some (between.criteria "serial")) = .ok m ∧
      m.accepts record = between.holds (compare a) := by
  intro a bs record between
  have hname : Criteria.checkName "serial" = .ok () := rfl
  have ha : Number.IsWritten a := by decide
  have hbs : ∀ b ∈ bs, Number.IsWritten b := by decide
  have hheld : fieldAt record (Text.split '.' "serial") = some (.ofInt a) := rfl
  have hapart : ∀ b ∈ bs, a ≠ b → Number.Apart a b := by
    decide +kernel
  refine ⟨hname, ha, hbs, hheld, ?_⟩
  exact (integers_exact_iff hname ha hbs hheld).1.mpr hapart between fun b hb => hb

/-- Above 2^53 an integer has the same nearest number as its neighbour. Documents with the one
are found by equality with the other, and they are not found by a list without the other, nor
by what is greater than it. Tables tell the two apart. -/
theorem neighbour_found_by_equality :
    let a : Int := 0x20000000000001
    let b : Int := 0x20000000000000
    let record : Record := ⟨[("serial", .ofInt a)]⟩
    let equal : IntegerTest := .single .eq (by decide) b
    let strange : IntegerTest := .notAmong [b]
    let greater : IntegerTest := .single .gt (by decide) b
    a ≠ b ∧
    (∀ t ∈ [(equal, true), (strange, false), (greater, false)],
      ∃ m, Matcher.ofCriteria (some (t.1.criteria "serial")) = .ok m ∧
        m.accepts record = t.2 ∧ t.1.holds (compare a) = !t.2) ∧
    ∃ w, Criteria.condition (some (equal.criteria "serial")) = .ok w ∧
      ∀ e : Engine, w.reading.truth e record = some false := by
  intro a b record equal strange greater
  have hname : Criteria.checkName "serial" = .ok () := rfl
  have hheld : fieldAt record (Text.split '.' "serial") = some (.ofInt a) := rfl
  have hcell : record.get? "serial" = some (.ofInt a) := rfl
  obtain ⟨w, hw, htruth⟩ := IntegerTest.truth_criteria hname (by decide) hcell equal
  refine ⟨by decide, fun t ht => ?_, w, hw, fun e => (htruth e).trans (by decide)⟩
  obtain ⟨m, hm, haccepts⟩ := IntegerTest.exists_ofCriteria hname t.1
  refine ⟨m, hm, ?_⟩
  rw [haccepts, IntegerTest.selects_criteria hheld]
  simp only [List.mem_cons, List.not_mem_nil, or_false] at ht
  rcases ht with rfl | rfl | rfl <;> decide +kernel

end Grove
