import Grove.Proofs.Criteria.Confine
import Grove.Proofs.Query.Blanks
import Grove.Proofs.Query.Selecting

/-!
# A path with a query on top

The criteria of a path and those of a query are put together by the shape that the path has: a
conjunction takes the query as one more operand, and anything else becomes the operand of a new
one. None of this shows in what is selected. A property that a conjunction has exactly if its
operands have it (`Conjunctive`) does not see how they are grouped, and to hold of a record is
such a property, as is to have no constant that could be taken for tests. So what the two parts
select together is what both of them select, and a query has no way around the path.
-/

namespace Grove

namespace Criteria

variable {c : Criteria} {cs : List Criteria} {record : Record}

/-- A conjunction has the property exactly if each of its operands does. -/
def Conjunctive (P : Criteria → Prop) : Prop :=
  ∀ cs, P (.logical .and cs) ↔ ∀ c ∈ cs, P c

theorem conjunctive_holds (record : Record) : Conjunctive (·.Holds record) := by
  intro cs
  show (logical .and cs).Holds record ↔ _
  rw [holds_iff_selects, selects, ← allHold_iff_selectsAll]

theorem allEqualValues_iff : AllEqualValues cs ↔ ∀ c ∈ cs, c.EqualsValues := by
  induction cs with
  | nil => simp [AllEqualValues]
  | cons c cs ih => rw [AllEqualValues, List.forall_mem_cons, ih]

theorem conjunctive_equalsValues : Conjunctive EqualsValues := by
  intro cs
  rw [EqualsValues, allEqualValues_iff]

section Grouping

variable {P : Criteria → Prop}

theorem Conjunctive.allOf (hP : Conjunctive P) :
    (∀ d ∈ Criteria.allOf cs, P d) ↔ ∀ c ∈ cs, P c := by
  match cs with
  | [] => simp [Criteria.allOf]
  | [c] => simp [Criteria.allOf]
  | c :: d :: rest => simpa [Criteria.allOf] using hP (c :: d :: rest)

theorem Conjunctive.restrict (hP : Conjunctive P) (p q : Option Criteria) :
    (∀ d ∈ Criteria.restrict p q, P d) ↔ (∀ d ∈ p, P d) ∧ ∀ d ∈ q, P d := by
  fun_cases Criteria.restrict p q with
  | case1 => simp
  | case2 p _ => simp
  | case3 operands q =>
      simp only [Option.mem_some_iff, forall_eq']
      rw [hP, hP, List.forall_mem_append, List.forall_mem_singleton]
  | case4 p q _ =>
      simp only [Option.mem_some_iff, forall_eq']
      rw [hP, List.forall_mem_cons, List.forall_mem_singleton]

end Grouping

/-! ## Filters -/

theorem toFilters_isOk :
    (∃ filters, toFilters cs = .ok filters) ↔ ∀ c ∈ cs, ∃ filter, c.toFilter = .ok filter := by
  induction cs with
  | nil => exact iff_of_true ⟨[], by rw [toFilters]⟩ (by simp)
  | cons c cs ih =>
      rw [List.forall_mem_cons, ← ih, toFilters]
      constructor
      · rintro ⟨filters, h⟩
        obtain ⟨first, hfirst, h⟩ := bind_eq_ok.mp h
        obtain ⟨rest, hrest, -⟩ := bind_eq_ok.mp h
        exact ⟨⟨first, hfirst⟩, rest, hrest⟩
      · rintro ⟨⟨first, hfirst⟩, rest, hrest⟩
        exact ⟨first :: rest, by rw [hfirst, hrest]; rfl⟩

theorem toFilter_eq_isOk {field : String} {value : Json} :
    (∃ filter, (Criteria.eq field value).toFilter = .ok filter) ↔ checkName field = .ok () := by
  rw [Criteria.eq, toFilter]
  cases checkName field with
  | ok _ => exact iff_of_true ⟨_, rfl⟩ rfl
  | error e =>
      refine iff_of_false ?_ (by simp)
      rintro ⟨filter, h⟩
      cases h

/-- Criteria are compiled if there is a filter for them and they are not too deep. -/
theorem ofCriteria_isOk (hvalues : c.EqualsValues) (hlevels : c.levels ≤ maxHeight) :
    (∃ m, Matcher.ofCriteria (some c) = .ok m) ↔ ∃ filter, c.toFilter = .ok filter := by
  constructor
  · rintro ⟨m, hm⟩
    exact (ofCriteria_eq_ok hm).imp fun _ h => h.1
  · rintro ⟨filter, h⟩
    have hfilter : Criteria.filter (some c) = .ok filter := by
      rw [Criteria.filter, (checkHeight_eq_ok_iff c).mpr hlevels, h]
      rfl
    obtain ⟨m, hm, -⟩ := ofFilter_filter hfilter hvalues
    exact ⟨m, by rw [Matcher.ofCriteria, hfilter]; simp only [hm]⟩

theorem levelsOfAll_le (h : ∀ c ∈ cs, c.levels ≤ 1) : levelsOfAll cs ≤ 1 := by
  induction cs with
  | nil => rw [levelsOfAll]; exact Nat.zero_le 1
  | cons c cs ih =>
      rw [List.forall_mem_cons] at h
      rw [levelsOfAll]
      exact Nat.max_le.mpr ⟨h.1, ih h.2⟩

theorem allOf_several (c d : Criteria) (rest : List Criteria) :
    allOf (c :: d :: rest) = some (.logical .and (c :: d :: rest)) := rfl

/-- Comparisons are compiled together if each of them has a filter. -/
theorem ofCriteria_allOf_isOk (hvalues : ∀ c ∈ cs, c.EqualsValues)
    (hlevels : ∀ c ∈ cs, c.levels ≤ 1) :
    (∃ m, Matcher.ofCriteria (allOf cs) = .ok m) ↔ ∀ c ∈ cs, ∃ filter, c.toFilter = .ok filter := by
  match cs with
  | [] => exact iff_of_true ⟨_, rfl⟩ (by simp)
  | [c] =>
      rw [List.forall_mem_singleton] at hvalues hlevels ⊢
      exact ofCriteria_isOk hvalues (Nat.le_trans hlevels (by decide))
  | c :: d :: rest =>
      have height : (Criteria.logical .and (c :: d :: rest)).levels ≤ maxHeight := by
        rw [levels]
        exact Nat.le_trans (Nat.succ_le_succ (levelsOfAll_le hlevels)) (by decide)
      rw [allOf_several, ofCriteria_isOk ((conjunctive_equalsValues _).mpr hvalues) height,
        ← toFilters_isOk]
      simp only [toFilter]
      constructor
      · rintro ⟨filter, h⟩
        exact (bind_eq_ok.mp h).imp fun _ h => h.1
      · rintro ⟨filters, h⟩
        exact ⟨_, by rw [h]; rfl⟩

/-! ## What is selected -/

/-- The matcher of criteria accepts the records for which they are true; without criteria it
accepts all. -/
theorem accepts_iff_holds {c : Option Criteria} {m : Matcher} (hm : Matcher.ofCriteria c = .ok m)
    (hvalues : ∀ d ∈ c, d.EqualsValues) (record : Record) :
    m.accepts record = true ↔ ∀ d ∈ c, d.Holds record := by
  cases c with
  | none =>
      cases hm
      simp [Matcher.accepts, Matcher.acceptsAll]
  | some c =>
      unfold Matcher.ofCriteria at hm
      split at hm
      · cases hm
      · next filter hfilter =>
          obtain ⟨m', hm', hselects⟩ := ofFilter_filter hfilter (hvalues c rfl)
          rw [hm'] at hm
          cases hm
          rw [hselects, ← holds_iff_selects]
          simp

theorem accepts_restrict {p q : Option Criteria} {m : Matcher}
    (hm : Matcher.ofCriteria (restrict p q) = .ok m) (hp : ∀ d ∈ p, d.EqualsValues)
    (hq : ∀ d ∈ q, d.EqualsValues) (record : Record) :
    m.accepts record = true ↔ (∀ d ∈ p, d.Holds record) ∧ ∀ d ∈ q, d.Holds record := by
  have hvalues := (conjunctive_equalsValues.restrict p q).mpr ⟨hp, hq⟩
  rw [accepts_iff_holds hm hvalues]
  exact (conjunctive_holds record).restrict p q

/-- A query that is missing or blank adds nothing, and any other adds what it is read as. -/
theorem withQuery_eq_ok {p c : Option Criteria} {q : Option String}
    (h : withQuery p q = .ok c) :
    (c = restrict p none ∧ ∀ text ∈ q, Text.isAllBlank text = true) ∨
      ∃ text n, q = some text ∧ Text.isAllBlank text = false ∧ Query.parse text = .ok n ∧
        c = restrict p (some n) := by
  unfold withQuery at h
  split at h
  · next hblank =>
      cases h
      refine .inl ⟨rfl, fun text hq => ?_⟩
      subst hq
      rw [← Text.trim_eq_empty_iff]
      simpa using hblank
  · next text htext =>
      obtain ⟨hq, hne⟩ := Option.filter_eq_some_iff.mp htext
      obtain ⟨full, rfl, rfl⟩ := Option.map_eq_some_iff.mp hq
      split at h
      · next n hn =>
          cases h
          refine .inr ⟨full, n, rfl, ?_, Query.parse_of_trim hn, rfl⟩
          rw [← Bool.not_eq_true, ← Text.trim_eq_empty_iff]
          simpa using hne
      · cases h

theorem restrict_eq_none_iff {p q : Option Criteria} :
    restrict p q = none ↔ p = none ∧ q = none := by
  fun_cases restrict p q <;> simp

theorem allOf_eq_none_iff : allOf cs = none ↔ cs = [] := by
  fun_cases allOf cs <;> simp_all

end Criteria

namespace Resource

variable {r : Resource} {params : Params}

theorem forall_mem_pathFactors {P : Criteria → Prop} :
    (∀ c ∈ r.pathFactors params, P c) ↔
      ∀ name ∈ r.pathNames, ∀ value, params.lookup name = some value →
        P (.eq (r.fieldOf name) (.string value)) := by
  simp only [pathFactors, List.mem_filterMap, Option.map_eq_some_iff]
  constructor
  · intro h name hname value hvalue
    exact h _ ⟨name, hname, value, hvalue, rfl⟩
  · rintro h _ ⟨name, hname, value, hvalue, rfl⟩
    exact h name hname value hvalue

theorem pathRestriction_eq_none_iff :
    r.pathRestriction params = none ↔ ∀ name ∈ r.pathNames, params.lookup name = none := by
  rw [pathRestriction, Criteria.allOf_eq_none_iff, pathFactors, List.filterMap_eq_nil_iff]
  simp

theorem equalsValues_of_pathFactors : ∀ c ∈ r.pathFactors params, c.EqualsValues := by
  rw [forall_mem_pathFactors]
  intro name _ value _
  rw [Criteria.eq, Criteria.EqualsValues]
  exact fun _ => rfl

/-- The criteria of a path are compiled unless one of their fields has a name that is refused. -/
theorem ofCriteria_pathRestriction_isOk :
    (∃ m, Matcher.ofCriteria (r.pathRestriction params) = .ok m) ↔
      ∀ name ∈ r.pathNames, ∀ value, params.lookup name = some value →
        Criteria.checkName (r.fieldOf name) = .ok () := by
  have hlevels : ∀ c ∈ r.pathFactors params, c.levels ≤ 1 :=
    forall_mem_pathFactors.mpr fun _ _ _ _ => Nat.le_of_eq Criteria.levels_eq
  rw [pathRestriction, Criteria.ofCriteria_allOf_isOk equalsValues_of_pathFactors hlevels,
    forall_mem_pathFactors]
  simp only [Criteria.toFilter_eq_isOk]

theorem equalsValues_of_pathRestriction : ∀ d ∈ r.pathRestriction params, d.EqualsValues :=
  Criteria.conjunctive_equalsValues.allOf.mpr equalsValues_of_pathFactors

theorem holds_pathRestriction (record : Record) :
    (∀ d ∈ r.pathRestriction params, d.Holds record) ↔
      ∀ name ∈ r.pathNames, ∀ value, params.lookup name = some value →
        (Criteria.eq (r.fieldOf name) (.string value)).Holds record := by
  rw [pathRestriction, (Criteria.conjunctive_holds record).allOf, forall_mem_pathFactors]

/-- What a path and a query select together is what has the value of every parameter in its
field and satisfies the query too, unless the query is blank. -/
theorem accepts_withQuery {q : Option String} {c : Option Criteria}
    (h : Criteria.withQuery (r.pathRestriction params) q = .ok c) {m : Matcher}
    (hm : Matcher.ofCriteria c = .ok m) (record : Record) :
    m.accepts record = true ↔
      (∀ name ∈ r.pathNames, ∀ value, params.lookup name = some value →
        (Criteria.eq (r.fieldOf name) (.string value)).Holds record) ∧
      ∀ text ∈ q, Text.isAllBlank text = false →
        ∃ n, Query.parse text = .ok n ∧ n.Holds record := by
  rcases Criteria.withQuery_eq_ok h with ⟨rfl, hblank⟩ | ⟨text, n, rfl, hblank, hn, rfl⟩
  · rw [Criteria.accepts_restrict hm equalsValues_of_pathRestriction (by simp),
      holds_pathRestriction]
    refine and_congr_right fun _ => iff_of_true (by simp) fun text htext hnot => ?_
    rw [hblank text htext] at hnot
    cases hnot
  · have hquery : ∀ d ∈ some n, d.EqualsValues :=
      fun _ hd => Option.some.inj hd ▸ (Query.asked_of_parse hn).equalsValues
    rw [Criteria.accepts_restrict hm equalsValues_of_pathRestriction hquery,
      holds_pathRestriction]
    refine and_congr_right fun _ => ?_
    simp [hblank, hn]

/-- A path always restricts the query. What is selected by both is what has the value of every
parameter in its field and satisfies the query too, unless the query is blank; and everything
is selected only where there is neither. -/
theorem withQuery_selects {q : Option String} {c : Option Criteria}
    (h : Criteria.withQuery (r.pathRestriction params) q = .ok c) :
    (∀ m, Matcher.ofCriteria c = .ok m → ∀ record, m.accepts record = true ↔
      (∀ name ∈ r.pathNames, ∀ value, params.lookup name = some value →
        (Criteria.eq (r.fieldOf name) (.string value)).Holds record) ∧
      ∀ text ∈ q, Text.isAllBlank text = false →
        ∃ n, Query.parse text = .ok n ∧ n.Holds record) ∧
    (c = none ↔ (∀ name ∈ r.pathNames, params.lookup name = none) ∧
      ∀ text ∈ q, Text.isAllBlank text = true) := by
  refine ⟨fun m hm record => accepts_withQuery h hm record, ?_⟩
  rcases Criteria.withQuery_eq_ok h with ⟨rfl, hblank⟩ | ⟨text, n, rfl, hblank, -, rfl⟩
  · rw [Criteria.restrict_eq_none_iff, pathRestriction_eq_none_iff]
    exact and_congr_right fun _ => iff_of_true rfl hblank
  · rw [Criteria.restrict_eq_none_iff, pathRestriction_eq_none_iff]
    refine and_congr_right fun _ => iff_of_false (Option.some_ne_none n) fun hall => ?_
    rw [hall text rfl] at hblank
    cases hblank

/-- A query that asks for either of two things, with blanks around it and on top of a path of
two parameters, leaves a record of another order alone. -/
theorem withQuery_selects_either :
    let r : Resource := { (default : Resource) with
      name := "lines", keys := ⟨"uuid", true⟩, criteriaKeys := [("ordersId", "order.uuid")],
      ancestorParams := ["ordersId"] }
    let params : Params := [("ordersId", "o1"), ("linesId", "l1")]
    let q := " state = open or state = closed "
    let line (order : String) : Record := ⟨[("uuid", .string "l1"),
      ("order", .object [("uuid", .string order)]), ("state", .string "closed")]⟩
    ∃ c m, Criteria.withQuery (r.pathRestriction params) (some q) = .ok (some c) ∧
      Matcher.ofCriteria (some c) = .ok m ∧ m.accepts (line "o1") = true ∧
      m.accepts (line "o2") = false := by
  intro r params q line
  let states : Criteria :=
    .logical .or [.eq "state" (.string "open"), .eq "state" (.string "closed")]
  have hscan : Token.scan (Text.trim q) = .ok [.word "state", .op .eq, .word "open", .or,
      .word "state", .op .eq, .word "closed"] := by decide +kernel
  have hparse : Query.parse (Text.trim q) = .ok states := by
    rw [Query.parse, hscan]
    rfl
  have htrim : ((some q).map Text.trim).filter (· ≠ "") = some (Text.trim q) := by decide +kernel
  have hselected : Criteria.withQuery (r.pathRestriction params) (some q) =
      .ok (some (.logical .and
        [.eq "order.uuid" (.string "o1"), .eq "uuid" (.string "l1"), states])) := by
    rw [Criteria.withQuery, htrim]
    simp only [hparse]
    rfl
  obtain ⟨hselects, -⟩ := withQuery_selects hselected
  have haccepts := hselects _ rfl
  have hnames : r.pathNames = ["ordersId", "linesId"] := by decide +kernel
  have hfields : r.fieldOf "ordersId" = "order.uuid" ∧ r.fieldOf "linesId" = "uuid" := by
    decide +kernel
  refine ⟨_, _, hselected, rfl, (haccepts _).mpr ⟨?_, ?_⟩, ?_⟩
  · rw [hnames, List.forall_mem_cons, List.forall_mem_singleton, hfields.1, hfields.2]
    constructor
    · rintro value ⟨⟩
      exact .compare (.inl (.inside rfl (.inside rfl (.here _)))) (.whole (.alike rfl))
    · rintro value ⟨⟩
      exact .compare (.inl (.inside rfl (.here _))) (.whole (.alike rfl))
  · rintro text ⟨⟩ -
    have hclosed : (Criteria.eq "state" (.string "closed")).Holds (line "o1") :=
      .compare (.inl (.inside rfl (.here _))) (.whole (.alike rfl))
    exact ⟨states, Query.parse_of_trim hparse,
      .or (List.mem_cons_of_mem _ List.mem_cons_self) hclosed⟩
  · rw [Bool.eq_false_iff, Ne, haccepts]
    rintro ⟨hpath, -⟩
    have hother := hpath "ordersId" (hnames ▸ List.mem_cons_self) "o1" rfl
    rw [hfields.1, Criteria.holds_iff_selects] at hother
    revert hother
    decide +kernel

end Resource

end Grove
