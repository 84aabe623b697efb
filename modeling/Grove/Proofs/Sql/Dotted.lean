import Grove.Failure
import Grove.Proofs.Sql.Lowering

/-!
# Fields with points

No column has a point in its name. A field that has one is a path into a column, and the tests
that a condition has of it are to be containment. Comparisons are lowered so, or refused. Ranges
are not asked for points: their bounds are compared with a column of the whole name. Apart from
these bounds there is no test of a column with a point (`dotted_contained_iff`).

Criteria and their condition are compared along the leaves of one and the tests of the other.
Groups only put leaves and tests together, so what is said of them need only be closed under
that (`Traced.append`).
-/

namespace Grove

open Sql (Operator Condition)

namespace Sql.Condition

structure Test where
  column : String
  op : Operator
  value : Json

/-- A test of what a path into a column holds. -/
def Test.IsContainment (t : Test) : Prop :=
  (t.op = .contains ∨ t.op = .lacks) ∧ Criteria.IsPath t.column

mutual

def tests : Condition → List Test
  | .all => []
  | .test column op value => [⟨column, op, value⟩]
  | .and parts | .or parts => testsOfAll parts

def testsOfAll : List Condition → List Test
  | [] => []
  | c :: cs => tests c ++ testsOfAll cs

end

end Sql.Condition

namespace Criteria

open Sql.Condition (Test)

mutual

def leaves : Criteria → List Criteria
  | .compare op field value => [.compare op field value]
  | .between field lower upper => [.between field lower upper]
  | .logical _ operands => leavesOfAll operands

def leavesOfAll : List Criteria → List Criteria
  | [] => []
  | c :: cs => leaves c ++ leavesOfAll cs

end

/-- A range over the column of the test is among the criteria, and the test is one of its two
bounds. -/
def IsBound (leaves : List Criteria) (t : Test) : Prop :=
  ∃ lower upper, .between t.column lower upper ∈ leaves ∧
    (t = ⟨t.column, .gte, lower⟩ ∨ t = ⟨t.column, .lte, upper⟩)

def TakesPath (op : Comparison) : Prop := op = .eq ∨ op = .ne

/-- What is known of fields with points where leaves were lowered to tests. -/
structure Traced (leaves : List Criteria) (tests : List Test) : Prop where
  dotted : ∀ t ∈ tests, Text.has t.column '.' = true → t.IsContainment ∨ IsBound leaves t
  bounds : ∀ field lower upper, .between field lower upper ∈ leaves →
    ⟨field, .gte, lower⟩ ∈ tests ∧ ⟨field, .lte, upper⟩ ∈ tests
  compared : ∀ op field value, .compare op field value ∈ leaves →
    Text.has field '.' = true → TakesPath op

namespace Traced

variable {as bs : List Criteria} {ss ts : List Test}

theorem nil : Traced [] [] := ⟨nofun, nofun, nofun⟩

theorem append (h : Traced as ss) (h' : Traced bs ts) : Traced (as ++ bs) (ss ++ ts) where
  dotted t ht hdotted := by
    rcases List.mem_append.mp ht with ht | ht
    · refine (h.dotted t ht hdotted).imp_right ?_
      rintro ⟨lower, upper, hleaf, hbound⟩
      exact ⟨lower, upper, List.mem_append_left bs hleaf, hbound⟩
    · refine (h'.dotted t ht hdotted).imp_right ?_
      rintro ⟨lower, upper, hleaf, hbound⟩
      exact ⟨lower, upper, List.mem_append_right as hleaf, hbound⟩
  bounds field lower upper hleaf := by
    rcases List.mem_append.mp hleaf with hleaf | hleaf
    · obtain ⟨hlower, hupper⟩ := h.bounds field lower upper hleaf
      exact ⟨List.mem_append_left ts hlower, List.mem_append_left ts hupper⟩
    · obtain ⟨hlower, hupper⟩ := h'.bounds field lower upper hleaf
      exact ⟨List.mem_append_right ss hlower, List.mem_append_right ss hupper⟩
  compared op field value hleaf :=
    (List.mem_append.mp hleaf).elim (h.compared op field value) (h'.compared op field value)

theorem compare {op : Comparison} {field : String} {value : Json} {t : Test}
    (htest : Text.has t.column '.' = true → t.IsContainment)
    (hop : Text.has field '.' = true → TakesPath op) : Traced [.compare op field value] [t] where
  dotted t' ht hdotted := by
    cases List.mem_singleton.mp ht
    exact .inl (htest hdotted)
  bounds _ _ _ hleaf := by simp at hleaf
  compared op' field' value' hleaf hdotted := by
    cases List.mem_singleton.mp hleaf
    exact hop hdotted

theorem of_forall₂ {cs : List Criteria} {ws : List Condition}
    (h : List.Forall₂ (fun c w => Traced c.leaves w.tests) cs ws) :
    Traced (leavesOfAll cs) (Sql.Condition.testsOfAll ws) := by
  induction h with
  | nil => exact .nil
  | cons hfirst _ ih => exact hfirst.append ih

end Traced

theorem traced_lowering : LoweringInvariant fun c w => Traced c.leaves w.tests where
  contains _ _ hpath _ := .compare (fun _ => ⟨.inl rfl, hpath⟩) fun _ => .inl rfl
  lacks _ _ hpath _ := .compare (fun _ => ⟨.inr rfl, hpath⟩) fun _ => .inr rfl
  flat _ _ _ hflat _ := .compare (by simp [hflat]) (by simp [hflat])
  list _ _ _ hflat _ := .compare (by simp [hflat]) (by simp [hflat])
  like _ _ hflat := .compare (by simp [hflat]) (by simp [hflat])
  between field lower upper :=
    { dotted := by
        intro t ht _
        refine .inr ⟨lower, upper, ?_⟩
        simp only [Sql.Condition.tests, Sql.Condition.testsOfAll, List.append_nil,
          List.cons_append, List.nil_append, List.mem_cons, List.not_mem_nil, or_false] at ht
        rcases ht with rfl | rfl
        · exact ⟨List.mem_cons_self, .inl rfl⟩
        · exact ⟨List.mem_cons_self, .inr rfl⟩
      bounds := by
        intro field' lower' upper' hleaf
        cases List.mem_singleton.mp hleaf
        exact ⟨List.mem_cons_self, List.mem_cons_of_mem _ List.mem_cons_self⟩
      compared := by
        intro op field' value hleaf
        simp [leaves] at hleaf }
  and _ _ _ hall := .of_forall₂ hall
  or _ _ _ hall := .of_forall₂ hall

/-- What criteria say of fields with points is containment if no range is over such a field, and
only then. A range over one is compared with a column of the whole name, and any other operator on
one makes the criteria malformed. -/
theorem dotted_contained_iff (c : Criteria) :
    (∀ w, condition (some c) = .ok w →
      (∀ t ∈ w.tests, Text.has t.column '.' = true → t.IsContainment ∨ IsBound c.leaves t) ∧
      ((∀ t ∈ w.tests, Text.has t.column '.' = true → t.IsContainment) ↔
        ∀ field lower upper, .between field lower upper ∈ c.leaves →
          Text.has field '.' = false)) ∧
      ∀ op field value, .compare op field value ∈ c.leaves → Text.has field '.' = true →
        ¬ TakesPath op → ∃ e, condition (some c) = .error e ∧
          (Failure.ofCriteria e).codes.2 = "MalformedCriteria" := by
  refine ⟨fun w hw => ?_, fun op field value hleaf hdotted hop => ?_⟩
  · have htraced := traced_lowering.of_condition hw
    refine ⟨htraced.dotted, fun hcontained field lower upper hleaf => ?_,
      fun hranges t ht hdotted => ?_⟩
    · obtain ⟨hlower, -⟩ := htraced.bounds field lower upper hleaf
      rw [Bool.eq_false_iff]
      intro hdotted
      rcases (hcontained _ hlower hdotted).1 with hop | hop <;> cases hop
    · refine (htraced.dotted t ht hdotted).resolve_right ?_
      rintro ⟨lower, upper, hleaf, -⟩
      rw [hranges _ lower upper hleaf] at hdotted
      cases hdotted
  · cases hw : condition (some c) with
    | error e => exact ⟨e, rfl, rfl⟩
    | ok w =>
        have htraced := traced_lowering.of_condition hw
        exact absurd (htraced.compared op field value hleaf hdotted) hop

/-- However deep a path is named, it is tested by containment, and a comparison by order of it is
refused. -/
theorem dotted_contained_iff_nested :
    let c : Criteria := .logical .or [.compare .gt "n" (.ofInt 3),
      .logical .and [.compare .ne "a.b_1" (.string "x"), .between "n" (.ofInt 1) (.ofInt 2)]]
    let d : Criteria := .logical .and [.compare .gt "a.b_1" (.ofInt 3)]
    ∃ w, condition (some c) = .ok w ∧ ⟨"a.b_1", .lacks, .string "x"⟩ ∈ w.tests ∧
      (∀ t ∈ w.tests, Text.has t.column '.' = true → t.IsContainment) ∧
      ∃ e, condition (some d) = .error e ∧
        (Failure.ofCriteria e).codes.2 = "MalformedCriteria" := by
  intro c d
  have hleaves : c.leaves = [.compare .gt "n" (.ofInt 3), .compare .ne "a.b_1" (.string "x"),
      .between "n" (.ofInt 1) (.ofInt 2)] := rfl
  obtain ⟨-, hcontained⟩ := (dotted_contained_iff c).1 _ rfl
  refine ⟨_, rfl, List.mem_cons_of_mem _ List.mem_cons_self, hcontained.mpr ?_, ?_⟩
  · intro field lower upper hleaf
    rw [hleaves] at hleaf
    simp only [List.mem_cons, reduceCtorEq, List.not_mem_nil, or_false, false_or] at hleaf
    cases hleaf
    decide
  · exact (dotted_contained_iff d).2 .gt "a.b_1" (.ofInt 3) List.mem_cons_self (by decide)
      (by rintro (h | h) <;> cases h)

/-- The bounds of a range are compared with a column that has a point in its name. -/
theorem dotted_range_compared :
    ¬ ∀ c w, condition (some c) = .ok w →
      ∀ t ∈ w.tests, Text.has t.column '.' = true → t.IsContainment := by
  intro h
  have hcontained := h (.between "a.b" (.ofInt 1) (.ofInt 2)) _ rfl ⟨"a.b", .gte, .ofInt 1⟩
    List.mem_cons_self (by decide)
  rcases hcontained.1 with hop | hop <;> cases hop

end Criteria

end Grove
