import Grove.Document.Store
import Grove.Proofs.Criteria.Height
import Grove.Proofs.Criteria.Meaning
import Grove.Proofs.Json.Equality

/-!
# Constants that are read as tests

Every comparison but equality has an operator in a filter, and its constant stands behind it.
The constant of an equality stands where tests could stand, and if it is an object with nothing
but operators for names it is taken for tests. So the comparisons that should say the same of
one value, and those that should say the opposite, do so for every constant but these
(`equality_is_membership_iff`).

That they differ for all of these, whatever the operators ask, takes two records. One holds the
constant itself. Of the tests that can be written down in it only the negative ones accept it,
because no value is the same as one of its own parts. The other holds the constant as the item
of an item of a list, which equals nothing that the negative tests could name, nor the constant.
-/

namespace Grove

open Matcher (fieldAt walk fieldChecks)

namespace Json

/-! ## Values and their parts -/

mutual

def nodes : Json → Nat
  | .array items => nodesOfItems items + 1
  | .object members => nodesOfMembers members + 1
  | _ => 1

def nodesOfItems : List Json → Nat
  | [] => 0
  | v :: vs => nodes v + nodesOfItems vs

def nodesOfMembers : List (String × Json) → Nat
  | [] => 0
  | (_, v) :: members => nodes v + nodesOfMembers members

end

mutual

theorem nodes_eq_of_same {v w : Json} (h : v.same w = true) : v.nodes = w.nodes := by
  match v, w with
  | .null, .null | .bool _, .bool _ | .number _, .number _ | .string _, .string _ => rfl
  | .array vs, .array ws => rw [nodes, nodes, nodesOfItems_eq_of_same h]
  | .object vs, .object ws => rw [nodes, nodes, nodesOfMembers_eq_of_same h]

theorem nodesOfItems_eq_of_same {vs ws : List Json} (h : sameItems vs ws = true) :
    nodesOfItems vs = nodesOfItems ws := by
  match vs, ws with
  | [], [] => rfl
  | v :: vs, w :: ws =>
      rw [sameItems, Bool.and_eq_true] at h
      rw [nodesOfItems, nodesOfItems, nodes_eq_of_same h.1, nodesOfItems_eq_of_same h.2]

theorem nodesOfMembers_eq_of_same {vs ws : List (String × Json)}
    (h : sameMembers vs ws = true) : nodesOfMembers vs = nodesOfMembers ws := by
  match vs, ws with
  | [], [] => rfl
  | (_, v) :: vs, (_, w) :: ws =>
      rw [sameMembers, Bool.and_eq_true, Bool.and_eq_true] at h
      rw [nodesOfMembers, nodesOfMembers, nodes_eq_of_same h.1.2, nodesOfMembers_eq_of_same h.2]

end

theorem nodes_lt_of_mem_items {items : List Json} {v : Json} (h : v ∈ items) :
    v.nodes < (Json.array items).nodes := by
  rw [nodes]
  induction items with
  | nil => cases h
  | cons w items ih =>
      rw [nodesOfItems]
      rcases List.mem_cons.mp h with rfl | h
      · omega
      · have := ih h
        omega

theorem nodes_lt_of_mem_members {members : List (String × Json)} {name : String} {v : Json}
    (h : (name, v) ∈ members) : v.nodes < (Json.object members).nodes := by
  rw [nodes]
  induction members with
  | nil => cases h
  | cons m members ih =>
      obtain ⟨other, w⟩ := m
      rw [nodesOfMembers]
      rcases List.mem_cons.mp h with heq | h
      · cases heq
        omega
      · have := ih h
        omega

/-- No value is the same as one with fewer values in it. -/
theorem not_same_of_nodes_lt {v w : Json} (h : w.nodes < v.nodes) : v.same w = false := by
  rw [← Bool.not_eq_true]
  intro hsame
  have := nodes_eq_of_same hsame
  omega

def boxed (v : Json) : Json := .array [.array [v]]

theorem nodes_boxed (v : Json) : v.boxed.nodes = v.nodes + 2 := rfl

def nested (v : Json) : List String → Json
  | [] => v
  | name :: names => .object [(name, nested v names)]

theorem walk_nested (v : Json) (names : List String) : walk (v.nested names) names = some v := by
  induction names with
  | nil => rfl
  | cons name names ih => simp [nested, walk, ih]

/-! ## Equality of objects and of lists in lists -/

/-- What a field equals is the same, unless it is a number or a list. -/
theorem equalField_object (members : List (String × Json)) (w : Json) :
    equalField (some (.object members)) w = (Json.object members).same w := by
  cases w <;> rfl

theorem equalField_boxed (v w : Json) : equalField (some v.boxed) w = v.boxed.same w := by
  cases w <;> simp [boxed, equalField, equalScalar, same]

end Json

theorem Record.exists_fieldAt (field : String) (v : Json) :
    ∃ record, fieldAt record (Text.split '.' field) = some v := by
  have hne := Text.split_ne_nil '.' field
  cases hnames : Text.split '.' field with
  | nil => exact absurd hnames hne
  | cons name names =>
      refine ⟨⟨[(name, v.nested names)]⟩, ?_⟩
      exact Json.walk_nested v (name :: names)

namespace FieldCheck

variable {operator : String} {argument v : Json} {check : FieldCheck}

/-- The check asks for a value that is not there. -/
inductive Negative (argument : Json) : FieldCheck → Prop
  | differs : Negative argument (.differs argument)
  | noneOf {items : List Json} (h : argument = .array items) : Negative argument (.noneOf items)

/-- Of the checks with a part of an object for their argument, only negative ones accept the
object. -/
theorem negative_of_accepts {members : List (String × Json)}
    (h : ofOperator operator argument = .ok check)
    (hpart : argument.nodes < (Json.object members).nodes)
    (haccepts : check.accepts (some (.object members)) = true) : Negative argument check := by
  have hnot : ∀ w : Json, w.nodes ≤ argument.nodes →
      Json.equalField (some (.object members)) w = false := by
    intro w hw
    rw [Json.equalField_object]
    exact Json.not_same_of_nodes_lt (by omega)
  -- An object has no order and no text either, so those tests fail as they stand.
  unfold ofOperator at h
  split at h
  · cases h
    rw [accepts, hnot _ (Nat.le_refl _)] at haccepts
    cases haccepts
  · cases h
    exact .differs
  · cases h
    cases haccepts
  · cases h
    cases haccepts
  · cases h
    cases haccepts
  · cases h
    cases haccepts
  · split at h
    · cases h
      rw [accepts, List.any_eq_true] at haccepts
      obtain ⟨item, hitem, hequal⟩ := haccepts
      rw [hnot item (Nat.le_of_lt (Json.nodes_lt_of_mem_items hitem))] at hequal
      cases hequal
    · cases h
  · split at h
    · cases h
      exact .noneOf rfl
    · cases h
  · split at h
    · split at h
      · cases h
        cases haccepts
      · cases h
    · cases h
  · cases h

theorem accepts_boxed (h : Negative argument check) (hpart : argument.nodes < v.nodes) :
    check.accepts (some v.boxed) = true := by
  have hnot : ∀ w : Json, w.nodes ≤ argument.nodes →
      Json.equalField (some v.boxed) w = false := by
    intro w hw
    rw [Json.equalField_boxed]
    exact Json.not_same_of_nodes_lt (by rw [Json.nodes_boxed]; omega)
  cases h with
  | differs => rw [accepts, hnot _ (Nat.le_refl _)]; rfl
  | noneOf hitems =>
      subst hitems
      rw [accepts, Bool.not_eq_true', List.any_eq_false]
      intro item hitem
      rw [hnot item (Nat.le_of_lt (Json.nodes_lt_of_mem_items hitem))]
      exact Bool.false_ne_true

/-- Each check of an object of tests is one that a member of it asks for. -/
theorem ofOperator_of_mem {members : List (String × Json)} {checks : List FieldCheck}
    (h : (members.mapM fun m => ofOperator m.1 m.2) = .ok checks) (hmem : check ∈ checks) :
    ∃ m ∈ members, ofOperator m.1 m.2 = .ok check := by
  induction members generalizing checks with
  | nil =>
      cases h
      cases hmem
  | cons m members ih =>
      rw [List.mapM_cons] at h
      obtain ⟨first, hfirst, h⟩ := bind_eq_ok.mp h
      obtain ⟨rest, hrest, h⟩ := bind_eq_ok.mp h
      cases h
      rcases List.mem_cons.mp hmem with rfl | hmem
      · exact ⟨m, List.mem_cons_self, hfirst⟩
      · obtain ⟨m', hm', hcheck⟩ := ih hrest hmem
        exact ⟨m', List.mem_cons_of_mem m hm', hcheck⟩

/-- No object of tests asks for what equals the object. -/
theorem exists_unlike_of_isTests {value : Json} {checks : List FieldCheck}
    (hvalue : value.isTests = true) (h : fieldChecks value = .ok checks) :
    ∃ v, (checks.all fun check => check.accepts (some v)) ≠ Json.equalField (some v) value := by
  match value with
  | .object members =>
      rw [Criteria.fieldChecks_of_isTests hvalue] at h
      by_cases haccepted : (checks.all (·.accepts (some (.object members)))) = true
      · refine ⟨(Json.object members).boxed, ?_⟩
        have hboxed : (checks.all (·.accepts (some (Json.object members).boxed))) = true := by
          rw [List.all_eq_true] at haccepted ⊢
          intro check hcheck
          obtain ⟨m, hm, hoperator⟩ := ofOperator_of_mem h hcheck
          have hpart := Json.nodes_lt_of_mem_members hm
          exact accepts_boxed (negative_of_accepts hoperator hpart (haccepted check hcheck)) hpart
        rw [hboxed, Json.equalField_boxed]
        nofun
      · refine ⟨.object members, ?_⟩
        rw [Json.equalField_object, Json.same_refl]
        exact haccepted

end FieldCheck

namespace Criteria

variable {op : Comparison} {field : String} {constant asked : Json} {m : Matcher}

/-! ## Single comparisons compiled -/

theorem ofCriteria_compare (hname : checkName field = .ok ())
    (hasked : fieldCheck op constant = .ok asked) :
    Matcher.ofCriteria (some (.compare op field constant)) = .ok m ↔
      ∃ checks, fieldChecks asked = .ok checks ∧
        m = .all [.field (Text.split '.' field) checks] := by
  have hlevels : (Criteria.compare op field constant).levels = 1 := by simp only [levels]
  have hheight : (Criteria.compare op field constant).checkHeight = .ok () :=
    (checkHeight_eq_ok_iff _).mpr (by rw [hlevels]; decide)
  have hfilter : Criteria.filter (some (.compare op field constant)) =
      .ok (.object [(field, asked)]) := by
    rw [Criteria.filter, hheight]
    simp only [toFilter, hname, hasked]
    rfl
  have hmember : Matcher.ofMember 1 field asked =
      (fieldChecks asked).map (.field (Text.split '.' field)) :=
    ofMember_field (checkName_eq_ok hname).2 1 asked
  have hheight' : ¬ maxHeight < 1 := by decide
  rw [Matcher.ofCriteria, hfilter]
  simp only [Matcher.ofFilter, Matcher.ofFilterAt, Matcher.ofMembers, hmember, if_neg hheight']
  cases fieldChecks asked with
  | ok checks => simp [Except.map, bind, Except.bind, pure, Except.pure, eq_comm]
  | error e => simp [Except.map, bind, Except.bind]

theorem accepts_field (checks : List FieldCheck) (record : Record) :
    (Matcher.all [.field (Text.split '.' field) checks]).accepts record =
      checks.all (·.accepts (fieldAt record (Text.split '.' field))) := by
  rw [accepts_all_singleton, Matcher.accepts]

/-- A membership and an inequality of one value compile whatever the value is, and a record is
in the one exactly if it is not in the other. -/
theorem membership_and_inequality (hname : checkName field = .ok ()) (value : Json) :
    ∃ member differ,
      Matcher.ofCriteria (some (.compare .isIn field (.array [value]))) = .ok member ∧
      Matcher.ofCriteria (some (.compare .ne field value)) = .ok differ ∧
      ∀ record,
        member.accepts record =
          Json.equalField (fieldAt record (Text.split '.' field)) value ∧
        differ.accepts record = !member.accepts record := by
  refine ⟨_, _,
    (ofCriteria_compare hname rfl).mpr ⟨_, fieldChecks_operation (by decide) rfl, rfl⟩,
    (ofCriteria_compare hname rfl).mpr ⟨_, fieldChecks_operation (by decide) rfl, rfl⟩,
    fun record => ?_⟩
  rw [accepts_field, accepts_field]
  simp [FieldCheck.accepts]

/-- Equality says of a value what membership in a list of it says, and the opposite of what
inequality says, exactly if the value is not an object of nothing but operators. For such an
object it either has no matcher or has one of other records. -/
theorem equality_is_membership_iff (hname : checkName field = .ok ()) (value : Json) :
    value.isTests = false ↔
      ∃ equal member differ,
        Matcher.ofCriteria (some (.eq field value)) = .ok equal ∧
        Matcher.ofCriteria (some (.compare .isIn field (.array [value]))) = .ok member ∧
        Matcher.ofCriteria (some (.compare .ne field value)) = .ok differ ∧
        ∀ record, equal.accepts record = member.accepts record ∧
          differ.accepts record = !equal.accepts record := by
  obtain ⟨member, differ, hmember, hdiffer, haccepts⟩ := membership_and_inequality hname value
  constructor
  · intro hvalue
    refine ⟨_, member, differ,
      (ofCriteria_compare hname rfl).mpr ⟨_, fieldChecks_of_not_isTests hvalue, rfl⟩, hmember,
      hdiffer, fun record => ?_⟩
    obtain ⟨hin, hnot⟩ := haccepts record
    have hequal : (Matcher.all [.field (Text.split '.' field) [.equals value]]).accepts record =
        member.accepts record := by
      rw [accepts_field, hin]
      simp [FieldCheck.accepts]
    exact ⟨hequal, by rw [hnot, hequal]⟩
  · rintro ⟨equal, member', differ', hequal, hmember', -, hagree⟩
    cases hmember.symm.trans hmember'
    rw [← Bool.not_eq_true]
    intro hvalue
    obtain ⟨checks, hchecks, rfl⟩ := (ofCriteria_compare hname rfl).mp hequal
    obtain ⟨v, hunlike⟩ := FieldCheck.exists_unlike_of_isTests hvalue hchecks
    obtain ⟨record, hrecord⟩ := Record.exists_fieldAt field v
    have hsame := (hagree record).1
    rw [accepts_field, (haccepts record).1, hrecord] at hsame
    exact hunlike hsame

/-- A value with operators in it, but not only operators, is found where it stands. -/
theorem equality_is_membership_iff_mixed :
    let value : Json := .object [("$gt", .ofInt 1), ("unit", .string "m")]
    let record : Record := ⟨[("size", .object [("least", value)])]⟩
    checkName "size.least" = .ok () ∧ value.isTests = false ∧
      ∃ equal member differ,
        Matcher.ofCriteria (some (.eq "size.least" value)) = .ok equal ∧
        Matcher.ofCriteria (some (.compare .isIn "size.least" (.array [value]))) = .ok member ∧
        Matcher.ofCriteria (some (.compare .ne "size.least" value)) = .ok differ ∧
        equal.accepts record = true ∧ member.accepts record = true ∧
        differ.accepts record = false := by
  intro value record
  have hname : checkName "size.least" = .ok () := rfl
  have hvalue : value.isTests = false := by decide +kernel
  obtain ⟨equal, member, differ, hequal, hmember, hdiffer, hagree⟩ :=
    (equality_is_membership_iff hname value).mp hvalue
  have hin : member.accepts record = true := by
    have hcompiled : Matcher.ofCriteria (some (.compare .isIn "size.least" (.array [value]))) =
        .ok (.all [.field ["size", "least"] [.oneOf [value]]]) :=
      (ofCriteria_compare rfl rfl).mpr ⟨_, fieldChecks_operation (by decide) rfl, rfl⟩
    cases hcompiled.symm.trans hmember
    decide +kernel
  obtain ⟨hsame, hopposite⟩ := hagree record
  rw [hin] at hsame
  rw [hsame] at hopposite
  exact ⟨hname, hvalue, equal, member, differ, hequal, hmember, hdiffer, hsame, hin, hopposite⟩

/-- Equality with `{"$gt": 1}` asks for what is greater than one, and so it takes what
inequality takes too and leaves out the one record that has the value. With another operator
it is refused. -/
theorem operators_taken_for_tests :
    let value : Json := .object [("$gt", .ofInt 1)]
    let holder : Record := ⟨[("size", value)]⟩
    let greater : Record := ⟨[("size", .ofInt 2)]⟩
    (∃ equal member differ,
      Matcher.ofCriteria (some (.eq "size" value)) = .ok equal ∧
      Matcher.ofCriteria (some (.compare .isIn "size" (.array [value]))) = .ok member ∧
      Matcher.ofCriteria (some (.compare .ne "size" value)) = .ok differ ∧
      [holder, greater].map equal.accepts = [false, true] ∧
      [holder, greater].map member.accepts = [true, false] ∧
      [holder, greater].map differ.accepts = [false, true]) ∧
    Matcher.ofCriteria (some (.eq "size" (.object [("$size", .ofInt 1)]))) =
      .error (.malformedCriteria "unknown operator $size") := by
  intro value holder greater
  have hmember : Matcher.ofCriteria (some (.compare .isIn "size" (.array [value]))) =
      .ok (.all [.field ["size"] [.oneOf [value]]]) :=
    (ofCriteria_compare rfl rfl).mpr ⟨_, fieldChecks_operation (by decide) rfl, rfl⟩
  have hdiffer : Matcher.ofCriteria (some (.compare .ne "size" value)) =
      .ok (.all [.field ["size"] [.differs value]]) :=
    (ofCriteria_compare rfl rfl).mpr ⟨_, fieldChecks_operation (by decide) rfl, rfl⟩
  exact ⟨⟨_, _, _, rfl, hmember, hdiffer, by decide +kernel, by decide +kernel,
    by decide +kernel⟩, rfl⟩

end Criteria

end Grove
