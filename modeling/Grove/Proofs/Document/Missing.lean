import Grove.Proofs.Document.Order

/-!
# Missing fields are null

A record need not have every field, and what it does not have counts as null. The two are
different values, and each check and each comparison has a rule of its own for either of
them, so that they count the same has to hold of every one: of the walk along a path, which
may end at a missing field or in the middle of the way at a null; of the six kinds of checks;
and of the kinds that values are sorted by.

Two records read alike (`Record.ReadsAlike`) if they are the same but for fields that one of
them lacks and that are null in the other. No criteria tell such records apart and no order
does (`alike_indistinguishable`), so a query finds them in the same places (`select_alike`).
-/

namespace Grove

open Matcher (fieldAt walk)

namespace Record

/-- Each field is the same in both records, where one that is missing counts as null. -/
def ReadsAlike (a b : Record) : Prop :=
  ∀ name, (a.get? name).getD .null = (b.get? name).getD .null

theorem readsAlike_insert_null {r : Record} {name : String} (h : r.get? name = none) :
    (r.insert name .null).ReadsAlike r := by
  intro other
  rw [get?_insert]
  split
  · next hname => rw [hname, h]; rfl
  · rfl

end Record

/-! ## Reading -/

theorem FieldCheck.accepts_getD (check : FieldCheck) (value : Option Json) :
    check.accepts (some (value.getD .null)) = check.accepts value := by
  have hequal (target : Json) : Json.equalField (some (value.getD .null)) target =
      Json.equalField value target := by
    cases value with
    | none => cases target <;> rfl
    | some value => rfl
  cases check with
  | equals target => exact hequal target
  | differs target => exact congrArg not (hequal target)
  | oneOf targets =>
      rw [accepts, accepts, funext hequal]
  | noneOf targets =>
      rw [accepts, accepts, funext hequal]
  | ordered side inclusive target => cases value <;> rfl
  | matchesPattern pattern => cases value <;> rfl

/-- Where a path begins at a missing field there is nothing, and where it begins at a null
there is at most a null. -/
theorem Matcher.walk_getD (value : Option Json) (names : List String) :
    (walk (value.getD .null) names).getD .null = (value.bind (walk · names)).getD .null := by
  cases value with
  | some value => rfl
  | none => cases names <;> rfl

theorem Json.orderFields_getD (x y : Option Json) :
    orderFields (some (x.getD .null)) (some (y.getD .null)) = orderFields x y := by
  rcases x with _ | x <;> rcases y with _ | y
  · rfl
  · cases y <;> rfl
  · cases x <;> rfl
  · rfl

/-! ## Records that read alike -/

namespace Record.ReadsAlike

variable {a b : Record}

theorem fieldAt_getD (h : a.ReadsAlike b) :
    ∀ path, (fieldAt a path).getD .null = (fieldAt b path).getD .null
  | [] => rfl
  | name :: names => by
      change ((a.get? name).bind (walk · names)).getD .null =
        ((b.get? name).bind (walk · names)).getD .null
      rw [← Matcher.walk_getD, ← Matcher.walk_getD, h name]

mutual

theorem accepts_eq (h : a.ReadsAlike b) : ∀ m : Matcher, m.accepts a = m.accepts b
  | .all parts => acceptsAll_eq h parts
  | .any parts => acceptsAny_eq h parts
  | .field path tests => by
      have htest (check : FieldCheck) :
          check.accepts (fieldAt a path) = check.accepts (fieldAt b path) := by
        rw [← check.accepts_getD, h.fieldAt_getD path, check.accepts_getD]
      rw [Matcher.accepts, Matcher.accepts, funext htest]

theorem acceptsAll_eq (h : a.ReadsAlike b) :
    ∀ ms, Matcher.acceptsAll a ms = Matcher.acceptsAll b ms
  | [] => rfl
  | m :: ms => by
      rw [Matcher.acceptsAll, Matcher.acceptsAll, accepts_eq h m, acceptsAll_eq h ms]

theorem acceptsAny_eq (h : a.ReadsAlike b) :
    ∀ ms, Matcher.acceptsAny a ms = Matcher.acceptsAny b ms
  | [] => rfl
  | m :: ms => by
      rw [Matcher.acceptsAny, Matcher.acceptsAny, accepts_eq h m, acceptsAny_eq h ms]

end

theorem compareByAll_left (h : a.ReadsAlike b) (keys : List OrderKey) (r : Record) :
    compareByAll keys a r = compareByAll keys b r := by
  induction keys with
  | nil => rfl
  | cons key keys ih =>
      have hfields : Json.orderFields (a.get? key.field) (r.get? key.field) =
          Json.orderFields (b.get? key.field) (r.get? key.field) := by
        rw [← Json.orderFields_getD, h key.field, Json.orderFields_getD]
      rw [compareByAll, compareByAll, compareBy, compareBy, hfields, ih]

theorem compareByAll_right (h : a.ReadsAlike b) (keys : List OrderKey) (r : Record) :
    compareByAll keys r a = compareByAll keys r b := by
  have hleft := congrArg Ordering.swap (h.compareByAll_left keys r)
  rwa [← Std.OrientedCmp.eq_swap, ← Std.OrientedCmp.eq_swap] at hleft

theorem compareByAll_eq (h : a.ReadsAlike b) (keys : List OrderKey) :
    compareByAll keys a b = .eq := by
  rw [h.compareByAll_left]
  exact Std.ReflCmp.compare_self

end Record.ReadsAlike

/-- Records that are the same but for fields that are missing in one and null in the other
are accepted by the same criteria, whatever the fields and the operators of these are.
Whatever the keys are, such records stand at the same place in the order, and any other
record stands before both of them, beside both or after both. -/
theorem alike_indistinguishable {a b : Record} (h : a.ReadsAlike b) :
    (∀ c m, Matcher.ofCriteria c = .ok m → m.accepts a = m.accepts b) ∧
    ∀ keys, Record.compareByAll keys a b = .eq ∧
      ∀ r, Record.compareByAll keys a r = Record.compareByAll keys b r ∧
        Record.compareByAll keys r a = Record.compareByAll keys r b :=
  ⟨fun _ m _ => h.accepts_eq m, fun keys =>
    ⟨h.compareByAll_eq keys, fun r => ⟨h.compareByAll_left keys r, h.compareByAll_right keys r⟩⟩⟩

/-- A null at the start of a path is passed like a missing field, and it counts as null in a
list of values that has a null among them. -/
theorem alike_indistinguishable_owner :
    let missing : Record := ⟨[("no", .ofInt 1)]⟩
    let null := missing.insert "owner" .null
    let c := Criteria.logical .and [.eq "owner.name" .null,
      .compare .isIn "owner" (.array [.string "ann", .null])]
    missing.get? "owner" = none ∧
    (∃ m, Matcher.ofCriteria (some c) = .ok m ∧ m.accepts missing = true ∧
      m.accepts null = true) ∧
    Record.compareByAll [⟨"owner", true⟩] null missing = .eq := by
  intro missing null c
  have hnone : missing.get? "owner" = none := rfl
  obtain ⟨hmatch, horder⟩ := alike_indistinguishable (Record.readsAlike_insert_null hnone)
  obtain ⟨m, hm, haccepts⟩ :
      ∃ m, Matcher.ofCriteria (some c) = .ok m ∧ m.accepts missing = true := ⟨_, rfl, rfl⟩
  exact ⟨hnone, ⟨m, hm, haccepts, (hmatch _ m hm).trans haccepts⟩, (horder _).1⟩

/-! ## Queries -/

def Record.PairsAlike (pairs : List (Record × Record)) : Prop := ∀ p ∈ pairs, p.1.ReadsAlike p.2

namespace Record.PairsAlike

variable {pairs : List (Record × Record)}

theorem filter_accepts (h : PairsAlike pairs) (m : Matcher) :
    ∃ kept, PairsAlike kept ∧
      (pairs.map (·.1)).filter (m.accepts ·) = kept.map (·.1) ∧
      (pairs.map (·.2)).filter (m.accepts ·) = kept.map (·.2) := by
  refine ⟨pairs.filter fun p => m.accepts p.1, fun p hp => h p (List.mem_filter.mp hp).1, ?_, ?_⟩
  · rw [List.filter_map]
    rfl
  · rw [List.filter_map]
    exact congrArg _ (List.filter_congr fun p hp => ((h p hp).accepts_eq m).symm)

theorem sortBy (h : PairsAlike pairs) (keys : List OrderKey) :
    ∃ sorted, PairsAlike sorted ∧
      Record.sortBy keys (pairs.map (·.1)) = sorted.map (·.1) ∧
      Record.sortBy keys (pairs.map (·.2)) = sorted.map (·.2) := by
  simp only [Record.sortBy]
  split
  · exact ⟨pairs, h, rfl, rfl⟩
  · refine ⟨pairs.mergeSort fun p q => compareByAll keys p.1 q.1 != .gt,
      fun p hp => h p ((List.mergeSort_perm _ _).mem_iff.mp hp), ?_, ?_⟩
    · exact (List.map_mergeSort (f := Prod.fst) fun p _ q _ => rfl).symm
    · refine (List.map_mergeSort (f := Prod.snd) fun p hp q hq => ?_).symm
      rw [(h p hp).compareByAll_left, (h q hq).compareByAll_right]

end Record.PairsAlike

/-- If the records of two collections read alike in pairs, a query of either finds the same
pairs in the same order. -/
theorem Collection.select_alike {c d : Collection} {pairs : List (Record × Record)}
    (h : Record.PairsAlike pairs) (hc : c.records = pairs.map (·.1))
    (hd : d.records = pairs.map (·.2)) (m : Matcher) (o : Paging) :
    ∃ found, Record.PairsAlike found ∧
      c.select m o = found.map (·.1) ∧ d.select m o = found.map (·.2) := by
  obtain ⟨kept, hkept, hleft, hright⟩ := h.filter_accepts m
  obtain ⟨sorted, hsorted, hfirst, hsecond⟩ := hkept.sortBy o.sort
  refine ⟨o.window.cut sorted, fun p hp => hsorted p ?_, ?_, ?_⟩
  · exact List.mem_of_mem_drop (List.mem_of_mem_take hp)
  · rw [select, matching, hc, hleft, hfirst, Window.cut, Window.cut, List.map_take, List.map_drop]
  · rw [select, matching, hd, hright, hsecond, Window.cut, Window.cut, List.map_take,
      List.map_drop]

end Grove
