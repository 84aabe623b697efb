import Grove.Document.Matcher
import Grove.Proofs.Criteria.Height
import Grove.Proofs.Outcome
import Grove.Proofs.Text.Split

/-!
# What criteria mean to documents

Criteria reach documents in two steps: they become a filter, which is itself a document,
and the filter is compiled into a matcher. `Criteria.selects` says what comes of both
without either of them: a formula over comparisons of single fields, in which a field that
is not there is null.

The main statement is `ofFilterAt_toFilter`: the filter of criteria compiles, and its
matcher accepts exactly the records that the criteria select. It needs two things of the
criteria. They are not deeper than a filter may be, and no constant of an equality looks
like a list of tests, since a filter writes such a constant where its tests stand.
-/

namespace Grove

open Matcher (isOperator fieldChecks fieldAt ofFilterAt ofMembers ofMember ofItems)

/-- A name without a point is no path: it leads to the field of that name. -/
theorem Matcher.fieldAt_flat {field : String} (h : Text.has field '.' = false) (record : Record) :
    fieldAt record (Text.split '.' field) = record.get? field := by
  rw [Text.split_of_not_has h]
  simp only [fieldAt, walk, Record.get?]
  cases record.fields.lookup field <;> rfl

/-- Whether a value holds nothing but operators, so that a filter takes it for tests. -/
def Json.isTests : Json → Bool
  | .object members => !members.isEmpty && members.all fun m => isOperator m.1
  | _ => false

def Comparison.holds (op : Comparison) (constant : Json) (field : Option Json) : Bool :=
  let order := field.bind (·.order? constant)
  match op with
  | .eq => Json.equalField field constant
  | .ne => !Json.equalField field constant
  | .gt => order.any (· == .gt)
  | .gte => order.any (· != .lt)
  | .lt => order.any (· == .lt)
  | .lte => order.any (· != .gt)
  | .isIn => constant.array?.any fun items => items.any (Json.equalField field)
  | .notIn => constant.array?.any fun items => !items.any (Json.equalField field)
  | .like =>
    match constant with
    | .string text =>
      match Regex.parse (Criteria.likePattern text) with
      | .ok pattern => (field.bind Json.patternText?).any pattern.isMatch
      | .error _ => false
    | _ => false

namespace Criteria

mutual

def selects (record : Record) : Criteria → Bool
  | .compare op field constant => op.holds constant (fieldAt record (Text.split '.' field))
  | .between field lower upper =>
    let value := fieldAt record (Text.split '.' field)
    Comparison.gte.holds lower value && Comparison.lte.holds upper value
  | .logical .and operands => selectsAll record operands
  | .logical .or operands => selectsAny record operands

def selectsAll (record : Record) : List Criteria → Bool
  | [] => true
  | c :: cs => selects record c && selectsAll record cs

def selectsAny (record : Record) : List Criteria → Bool
  | [] => false
  | c :: cs => selects record c || selectsAny record cs

end

mutual

/-- No equality has a constant that looks like tests. -/
def EqualsValues : Criteria → Prop
  | .compare op _ constant => op = .eq → constant.isTests = false
  | .between .. => True
  | .logical _ operands => AllEqualValues operands

def AllEqualValues : List Criteria → Prop
  | [] => True
  | c :: cs => EqualsValues c ∧ AllEqualValues cs

end

theorem checkName_eq_ok {field : String} (h : checkName field = .ok ()) :
    field ≠ "" ∧ isOperator field = false := by
  simp only [checkName] at h
  split at h
  · cases h
  · next hempty =>
      split at h
      · cases h
      · next hdollar => exact ⟨hempty, by simpa [isOperator] using hdollar⟩

/-! ## One comparison -/

theorem fieldChecks_of_not_isTests {value : Json} (h : value.isTests = false) :
    fieldChecks value = .ok [.equals value] := by
  cases value with
  | object members => rw [fieldChecks, if_neg (by simpa [Json.isTests] using h)]
  | null | bool | number | string | array => rfl

theorem fieldChecks_of_isTests {members : List (String × Json)}
    (h : (Json.object members).isTests = true) :
    fieldChecks (.object members) = members.mapM fun m => FieldCheck.ofOperator m.1 m.2 := by
  rw [fieldChecks, if_pos (by simpa [Json.isTests] using h)]

theorem fieldChecks_operation {operator : String} {argument : Json} {check : FieldCheck}
    (hop : isOperator operator = true) (h : FieldCheck.ofOperator operator argument = .ok check) :
    fieldChecks (.object [(operator, argument)]) = .ok [check] := by
  rw [fieldChecks_of_isTests (by simp [Json.isTests, hop]), List.mapM_cons, h]
  rfl

theorem fieldChecks_range (lower upper : Json) :
    fieldChecks (.object [("$gte", lower), ("$lte", upper)]) =
      .ok [.ordered .gt true lower, .ordered .lt true upper] := by
  have hgte : isOperator "$gte" = true := by decide
  have hlte : isOperator "$lte" = true := by decide
  rw [fieldChecks_of_isTests (by simp [Json.isTests, hgte, hlte])]
  rfl

theorem readLike_eq_ok {value : Json} {pattern : String} (h : readLike value = .ok pattern) :
    ∃ text regex, value = .string text ∧ pattern = likePattern text ∧
      Regex.parse (likePattern text) = .ok regex := by
  simp only [readLike] at h
  split at h
  · next text =>
      split at h
      · next regex hparse => exact ⟨text, regex, rfl, by simpa using h.symm, hparse⟩
      · cases h
  · cases h

def orderTests : List (Comparison × Ordering × Bool) :=
  [(.gt, .gt, false), (.gte, .gt, true), (.lt, .lt, false), (.lte, .lt, true)]

theorem accepts_ordered (op : Comparison) {side : Ordering} {inclusive : Bool}
    (h : (op, side, inclusive) ∈ orderTests) (constant : Json) (field : Option Json) :
    (FieldCheck.ordered side inclusive constant).accepts field = op.holds constant field := by
  simp only [orderTests, List.mem_cons, Prod.mk.injEq, List.not_mem_nil, or_false] at h
  simp only [FieldCheck.accepts, Comparison.holds]
  rcases h with ⟨rfl, rfl, rfl⟩ | ⟨rfl, rfl, rfl⟩ | ⟨rfl, rfl, rfl⟩ | ⟨rfl, rfl, rfl⟩ <;>
    cases field.bind (·.order? constant) with
    | none => rfl
    | some o => cases o <;> rfl

/-- What a comparison asks of its field compiles to tests that say when it holds. -/
theorem fieldChecks_fieldCheck {op : Comparison} {constant asked : Json}
    (hv : op = .eq → constant.isTests = false) (h : fieldCheck op constant = .ok asked) :
    ∃ checks, fieldChecks asked = .ok checks ∧
      ∀ field, (checks.all fun check => check.accepts field) = op.holds constant field := by
  cases op with
  | eq =>
      simp only [fieldCheck, Except.ok.injEq] at h
      subst h
      exact ⟨_, fieldChecks_of_not_isTests (hv rfl), fun field => by
        simp [FieldCheck.accepts, Comparison.holds]⟩
  | ne =>
      simp only [fieldCheck, Except.ok.injEq] at h
      subst h
      exact ⟨_, fieldChecks_operation (by decide) rfl, fun field => by
        simp [FieldCheck.accepts, Comparison.holds]⟩
  | gt | gte | lt | lte =>
      simp only [fieldCheck, Except.ok.injEq] at h
      subst h
      refine ⟨_, fieldChecks_operation (by decide) rfl, fun field => ?_⟩
      rw [List.all_cons, List.all_nil, Bool.and_true]
      exact accepts_ordered _ (by decide) constant field
  | isIn | notIn =>
      cases constant with
      | array items =>
          simp only [fieldCheck, Except.ok.injEq] at h
          subst h
          exact ⟨_, fieldChecks_operation (by decide) rfl, fun field => by
            simp [FieldCheck.accepts, Comparison.holds, Json.array?]⟩
      | null | bool | number | string | object => cases h
  | like =>
      simp only [fieldCheck] at h
      obtain ⟨pattern, hread, rfl⟩ := map_eq_ok.mp h
      obtain ⟨text, regex, rfl, rfl, hparse⟩ := readLike_eq_ok hread
      have hcompile : FieldCheck.ofOperator "$regex" (.string (likePattern text)) =
          .ok (.matchesPattern regex) := by
        simp only [FieldCheck.ofOperator, hparse]
      refine ⟨_, fieldChecks_operation (by decide) hcompile, fun field => ?_⟩
      simp only [List.all_cons, List.all_nil, Bool.and_true, FieldCheck.accepts,
        Comparison.holds, hparse]
      cases field.bind Json.patternText? <;> rfl

/-! ## Trees -/

theorem ofMember_field {name : String} (h : isOperator name = false) (depth : Nat) (value : Json) :
    ofMember depth name value = (fieldChecks value).map (.field (Text.split '.' name)) := by
  have hand : name ≠ "$and" := fun e => absurd (e ▸ h) (by decide)
  have hor : name ≠ "$or" := fun e => absurd (e ▸ h) (by decide)
  cases value with
  | array items => simp [ofMember, fieldChecks, hand, hor, h, Except.map]
  | null | bool | number | string | object => simp [ofMember, hand, hor, h]

theorem ofFilterAt_field {depth : Nat} (hd : depth ≤ maxHeight) {field : String}
    (hname : isOperator field = false) {asked : Json} {checks : List FieldCheck}
    (h : fieldChecks asked = .ok checks) :
    ofFilterAt depth (.object [(field, asked)]) =
      .ok (.all [.field (Text.split '.' field) checks]) := by
  simp only [ofFilterAt, if_neg (Nat.not_lt.mpr hd), ofMembers, ofMember_field hname, h]
  rfl

theorem ofFilterAt_connective {depth : Nat} (hd : depth ≤ maxHeight) (op : Connective)
    {items : List Json} {parts : List Matcher} (h : ofItems (depth + 1) items = .ok parts) :
    ofFilterAt depth (.object [(op.filterOperator, .array items)]) =
      .ok (.all [match op with | .and => .all parts | .or => .any parts]) := by
  simp only [ofFilterAt, if_neg (Nat.not_lt.mpr hd), ofMembers]
  cases op <;> simp [ofMember, Connective.filterOperator, h] <;> rfl

theorem accepts_all_singleton (record : Record) (m : Matcher) :
    (Matcher.all [m]).accepts record = m.accepts record := by
  simp [Matcher.accepts, Matcher.acceptsAll]

mutual

/-- The filter of criteria compiles to a matcher that accepts what the criteria select. The
filter is as deep as the criteria, so the limit on filters never strikes. -/
theorem ofFilterAt_toFilter {c : Criteria} {filter : Json} (depth : Nat)
    (h : c.toFilter = .ok filter) (hd : depth + c.levels ≤ maxHeight + 1) (hv : c.EqualsValues) :
    ∃ m, ofFilterAt depth filter = .ok m ∧ ∀ record, m.accepts record = c.selects record := by
  have hdepth : depth ≤ maxHeight := by
    have := levels_pos c
    omega
  match c with
  | .compare op field constant =>
      rw [toFilter] at h
      obtain ⟨⟨⟩, hname, h⟩ := bind_eq_ok.mp h
      obtain ⟨asked, hasked, h⟩ := bind_eq_ok.mp h
      cases h
      rw [EqualsValues] at hv
      obtain ⟨checks, hchecks, hholds⟩ := fieldChecks_fieldCheck hv hasked
      refine ⟨_, ofFilterAt_field hdepth (checkName_eq_ok hname).2 hchecks, fun record => ?_⟩
      rw [accepts_all_singleton, Matcher.accepts, hholds, selects]
  | .between field lower upper =>
      rw [toFilter] at h
      obtain ⟨⟨⟩, hname, h⟩ := bind_eq_ok.mp h
      cases h
      refine ⟨_, ofFilterAt_field hdepth (checkName_eq_ok hname).2 (fieldChecks_range lower upper),
        fun record => ?_⟩
      rw [accepts_all_singleton, Matcher.accepts, List.all_cons, List.all_cons, List.all_nil,
        Bool.and_true, accepts_ordered .gte (by decide),
        accepts_ordered .lte (by decide), selects]
  | .logical op [] =>
      simp only [toFilter, reduceCtorEq] at h
  | .logical op (first :: rest) =>
      simp only [toFilter] at h
      obtain ⟨items, hitems, h⟩ := bind_eq_ok.mp h
      cases h
      rw [levels] at hd
      rw [EqualsValues] at hv
      obtain ⟨parts, hparts, hall, hany⟩ :=
        ofItems_toFilters (depth + 1) hitems (by omega) hv
      refine ⟨_, ofFilterAt_connective hdepth op hparts, fun record => ?_⟩
      cases op with
      | and => rw [accepts_all_singleton, Matcher.accepts, hall, selects]
      | or => rw [accepts_all_singleton, Matcher.accepts, hany, selects]

theorem ofItems_toFilters {cs : List Criteria} {filters : List Json} (depth : Nat)
    (h : toFilters cs = .ok filters) (hd : depth + levelsOfAll cs ≤ maxHeight + 1)
    (hv : AllEqualValues cs) :
    ∃ parts, ofItems depth filters = .ok parts ∧
      (∀ record, Matcher.acceptsAll record parts = selectsAll record cs) ∧
      ∀ record, Matcher.acceptsAny record parts = selectsAny record cs := by
  match cs with
  | [] =>
      rw [toFilters] at h
      cases h
      exact ⟨[], rfl, fun _ => rfl, fun _ => rfl⟩
  | c :: cs =>
      rw [toFilters] at h
      obtain ⟨filter, hfilter, h⟩ := bind_eq_ok.mp h
      obtain ⟨filters, hfilters, h⟩ := bind_eq_ok.mp h
      cases h
      rw [levelsOfAll] at hd
      rw [AllEqualValues] at hv
      obtain ⟨m, hm, haccepts⟩ := ofFilterAt_toFilter depth hfilter (by omega) hv.1
      obtain ⟨parts, hparts, hall, hany⟩ :=
        ofItems_toFilters depth hfilters (by omega) hv.2
      refine ⟨m :: parts, by rw [ofItems, hm, hparts]; rfl, fun record => ?_, fun record => ?_⟩
      · rw [Matcher.acceptsAll, haccepts, hall, selectsAll]
      · rw [Matcher.acceptsAny, haccepts, hany, selectsAny]

end

theorem filter_eq_ok {c : Criteria} {filter : Json} (h : Criteria.filter (some c) = .ok filter) :
    c.toFilter = .ok filter ∧ c.levels ≤ maxHeight := by
  obtain ⟨⟨⟩, hheight, h⟩ := bind_eq_ok.mp h
  exact ⟨h, (checkHeight_eq_ok_iff c).mp hheight⟩

theorem ofFilter_filter {c : Criteria} {filter : Json} (h : Criteria.filter (some c) = .ok filter)
    (hv : c.EqualsValues) :
    ∃ m, Matcher.ofFilter filter = .ok m ∧ ∀ record, m.accepts record = c.selects record := by
  obtain ⟨hfilter, hlevels⟩ := filter_eq_ok h
  exact ofFilterAt_toFilter 1 hfilter (by omega) hv

end Criteria

end Grove
