/-!
# Truth in three values

A condition of a statement is true, false or unknown, and only true selects a row. Of each
connective it is said here when it is true, and of the one that is negated, when it is false. That
is enough for the rows a condition selects, because it negates nothing but single tests. What
becomes of an unknown is said of pairs with a truth that is known, as they stand where null is
asked for apart from the values.
-/

namespace Grove.Sql

/-- A truth value; `none` is unknown. -/
abbrev Truth := Option Bool

namespace Truth

def negation (t : Truth) : Truth := t.map (!·)

def both : Truth → Truth → Truth
  | some false, _ | _, some false => some false
  | some true, some true => some true
  | _, _ => none

def either : Truth → Truth → Truth
  | some true, _ | _, some true => some true
  | some false, some false => some false
  | _, _ => none

def all (ts : List Truth) : Truth := ts.foldr both (some true)

def any (ts : List Truth) : Truth := ts.foldr either (some false)

theorem negation_eq_true {t : Truth} : t.negation = some true ↔ t = some false := by
  cases t with
  | none => simp [negation]
  | some b => cases b <;> simp [negation]

theorem both_eq_true {s t : Truth} : both s t = some true ↔ s = some true ∧ t = some true := by
  rcases s with _ | _ | _ <;> rcases t with _ | _ | _ <;> simp [both]

theorem either_eq_true {s t : Truth} : either s t = some true ↔ s = some true ∨ t = some true := by
  rcases s with _ | _ | _ <;> rcases t with _ | _ | _ <;> simp [either]

theorem either_eq_false {s t : Truth} :
    either s t = some false ↔ s = some false ∧ t = some false := by
  rcases s with _ | _ | _ <;> rcases t with _ | _ | _ <;> simp [either]

theorem all_eq_true {ts : List Truth} : all ts = some true ↔ ∀ t ∈ ts, t = some true := by
  induction ts with
  | nil => simp [all]
  | cons t ts ih =>
      rw [all, List.foldr_cons, both_eq_true, ← all, ih]
      simp

theorem any_eq_true {ts : List Truth} : any ts = some true ↔ ∃ t ∈ ts, t = some true := by
  induction ts with
  | nil => simp [any]
  | cons t ts ih =>
      rw [any, List.foldr_cons, either_eq_true, ← any, ih]
      simp only [List.mem_cons, exists_eq_or_imp]

theorem any_eq_false {ts : List Truth} : any ts = some false ↔ ∀ t ∈ ts, t = some false := by
  induction ts with
  | nil => simp [any]
  | cons t ts ih =>
      rw [any, List.foldr_cons, either_eq_false, ← any, ih]
      simp

@[simp] theorem all_singleton (t : Truth) : all [t] = t := by
  rcases t with _ | _ | _ <;> rfl

@[simp] theorem any_singleton (t : Truth) : any [t] = t := by
  rcases t with _ | _ | _ <;> rfl

/-- Of nothing but unknowns, none is known to be true or false. -/
theorem any_eq_none {ts : List Truth} (hne : ts ≠ []) (h : ∀ t ∈ ts, t = none) : any ts = none := by
  induction ts with
  | nil => exact absurd rfl hne
  | cons t ts ih =>
      obtain ⟨rfl, hts⟩ := List.forall_mem_cons.mp h
      cases ts with
      | nil => rfl
      | cons s ts =>
          have hrest := ih (List.cons_ne_nil s ts) hts
          rw [any] at hrest
          rw [any, List.foldr_cons, hrest]
          rfl

theorem any_pair_some (t : Truth) (b : Bool) :
    any [t, some b] = if b then some true else t := by
  rcases t with _ | _ | _ <;> cases b <;> rfl

theorem any_some_pair (b : Bool) (t : Truth) :
    any [some b, t] = if b then some true else t := by
  rcases t with _ | _ | _ <;> cases b <;> rfl

theorem all_some_pair (b : Bool) (t : Truth) :
    all [some b, t] = if b then t else some false := by
  rcases t with _ | _ | _ <;> cases b <;> rfl

theorem all_pair_eq_true {s t : Truth} :
    all [s, t] = some true ↔ s = some true ∧ t = some true := by
  rw [all_eq_true, List.forall_mem_cons, List.forall_mem_singleton]

theorem any_pair_eq_true {s t : Truth} :
    any [s, t] = some true ↔ s = some true ∨ t = some true := by
  simp only [any_eq_true, List.mem_cons, List.not_mem_nil, or_false, exists_eq_or_imp,
    exists_eq_left]

end Truth

end Grove.Sql
