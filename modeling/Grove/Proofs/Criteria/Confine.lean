import Grove.Document.Store
import Grove.Proofs.Criteria.Meaning
import Grove.Proofs.Sql.Expression
import Grove.Proofs.Sql.Truth
import Grove.Selection

/-!
# Criteria that confine

Criteria confine to a value when everything that they select has it in a field, whichever
backend they are put to. A comparison that is one operand of a conjunction does that, no
matter what the other operands are, and so the comparisons that a path stands for confine
a request: a query that comes on top is one more operand (`confines_of_withQuery`).
-/

namespace Grove

namespace Criteria

open Matcher (fieldAt ofFilterAt ofItems)

/-- Whatever the criteria select has the value in the field: a document as documents are
compared, and a row as the condition for that comparison has it. -/
structure Confines (c : Criteria) (field : String) (value : Json) : Prop where
  documents : ∀ m, Matcher.ofCriteria (some c) = .ok m → ∀ record, m.accepts record = true →
    Json.equalField (fieldAt record (Text.split '.' field)) value = true
  rows : ∀ w, condition (some c) = .ok w → ∃ test, condition (some (.eq field value)) = .ok test ∧
    ∀ e row, w.reading.truth e row = some true → test.reading.truth e row = some true

/-- The criteria are that comparison, or a conjunction with it for an operand. -/
def Demands (c : Criteria) (field : String) (value : Json) : Prop :=
  c = .eq field value ∨ ∃ operands, c = .logical .and operands ∧ .eq field value ∈ operands

variable {c : Criteria} {cs : List Criteria} {field : String} {value : Json}

/-! ## Operands -/

theorem ofCriteria_eq_ok {m : Matcher} (h : Matcher.ofCriteria (some c) = .ok m) :
    ∃ filter, c.toFilter = .ok filter ∧ ofFilterAt 1 filter = .ok m := by
  unfold Matcher.ofCriteria at h
  split at h
  · cases h
  · next filter hfilter =>
      split at h
      · cases h
      · next m' hm =>
          cases h
          exact ⟨filter, (filter_eq_ok hfilter).1, hm⟩

theorem parts_of_connective {depth : Nat} (op : Connective) {filters : List Json} {m : Matcher}
    (h : ofFilterAt depth (.object [(op.filterOperator, .array filters)]) = .ok m) :
    ∃ parts, ofItems (depth + 1) filters = .ok parts := by
  rw [ofFilterAt] at h
  split at h
  · cases h
  · obtain ⟨_, hmembers, -⟩ := map_eq_ok.mp h
    obtain ⟨_, hmember, -⟩ := bind_eq_ok.mp hmembers
    cases op <;> exact (map_eq_ok.mp hmember).imp fun _ hparts => hparts.1

theorem matcher_of_mem {filters : List Json} {parts : List Matcher} (depth : Nat)
    (hfilters : toFilters cs = .ok filters) (hparts : ofItems depth filters = .ok parts)
    (h : c ∈ cs) :
    ∃ filter m, c.toFilter = .ok filter ∧ ofFilterAt depth filter = .ok m ∧ m ∈ parts := by
  induction cs generalizing filters parts with
  | nil => exact absurd h List.not_mem_nil
  | cons d ds ih =>
      rw [toFilters] at hfilters
      obtain ⟨first, hfirst, hfilters⟩ := bind_eq_ok.mp hfilters
      obtain ⟨rest, hrest, hfilters⟩ := bind_eq_ok.mp hfilters
      cases hfilters
      rw [ofItems] at hparts
      obtain ⟨m, hm, hparts⟩ := bind_eq_ok.mp hparts
      obtain ⟨ms, hms, hparts⟩ := bind_eq_ok.mp hparts
      cases hparts
      rcases List.mem_cons.mp h with rfl | h
      · exact ⟨first, m, hfirst, hm, List.mem_cons_self⟩
      · obtain ⟨filter, m', hfilter, hm', hmem⟩ := ih hrest hms h
        exact ⟨filter, m', hfilter, hm', List.mem_cons_of_mem _ hmem⟩

theorem accepts_of_mem {record : Record} {m : Matcher} {parts : List Matcher}
    (h : Matcher.acceptsAll record parts = true) (hm : m ∈ parts) : m.accepts record = true := by
  induction parts with
  | nil => exact absurd hm List.not_mem_nil
  | cons first rest ih =>
      rw [Matcher.acceptsAll, Bool.and_eq_true] at h
      rcases List.mem_cons.mp hm with rfl | hm
      · exact h.1
      · exact ih h.2 hm

theorem condition_of_mem {parts : List Sql.Condition} (hparts : lowerConditions cs = .ok parts)
    (h : c ∈ cs) : ∃ w, lowerCondition c = .ok w ∧ w ∈ parts := by
  induction cs generalizing parts with
  | nil => exact absurd h List.not_mem_nil
  | cons d ds ih =>
      rw [lowerConditions] at hparts
      obtain ⟨first, hfirst, hparts⟩ := bind_eq_ok.mp hparts
      obtain ⟨rest, hrest, hparts⟩ := bind_eq_ok.mp hparts
      cases hparts
      rcases List.mem_cons.mp h with rfl | h
      · exact ⟨first, hfirst, List.mem_cons_self⟩
      · obtain ⟨w, hw, hmem⟩ := ih hrest h
        exact ⟨w, hw, List.mem_cons_of_mem _ hmem⟩

theorem truth_of_mem {e : Sql.Engine} {row : Record} {w : Sql.Condition}
    {parts : List Sql.Condition} (h : (Sql.Condition.and parts).reading.truth e row = some true)
    (hw : w ∈ parts) : w.reading.truth e row = some true := by
  rw [Sql.Condition.reading, Sql.Expression.truth, Sql.Truth.all_eq_true] at h
  induction parts with
  | nil => exact absurd hw List.not_mem_nil
  | cons first rest ih =>
      rw [Sql.Condition.readings, Sql.Expression.truthOfAll, List.forall_mem_cons] at h
      rcases List.mem_cons.mp hw with rfl | hw
      · exact h.1
      · exact ih h.2 hw

/-! ## Comparisons that confine -/

theorem levels_eq : (Criteria.eq field value).levels = 1 := by simp only [Criteria.eq, levels]

theorem accepts_eq (hvalue : value.isTests = false) {depth : Nat} (hd : depth ≤ maxHeight)
    {filter : Json} (hfilter : (Criteria.eq field value).toFilter = .ok filter) {m : Matcher}
    (hm : ofFilterAt depth filter = .ok m) {record : Record} (h : m.accepts record = true) :
    Json.equalField (fieldAt record (Text.split '.' field)) value = true := by
  have hlevels : depth + (Criteria.eq field value).levels ≤ maxHeight + 1 := by
    rw [levels_eq]
    omega
  have hequals : (Criteria.eq field value).EqualsValues := by
    rw [Criteria.eq, EqualsValues]
    exact fun _ => hvalue
  obtain ⟨m', hm', hselects⟩ := ofFilterAt_toFilter depth hfilter hlevels hequals
  rw [hm] at hm'
  cases hm'
  rw [hselects, Criteria.eq, selects, Comparison.holds] at h
  exact h

theorem condition_eq : condition (some (.eq field value)) = lowerCondition (.eq field value) := by
  have hheight : (Criteria.eq field value).checkHeight = .ok () :=
    (checkHeight_eq_ok_iff _).mpr (by rw [levels_eq]; decide)
  rw [condition, hheight]
  rfl

theorem confines_eq (hvalue : value.isTests = false) :
    (Criteria.eq field value).Confines field value where
  documents m hm record h := by
    obtain ⟨filter, hfilter, hm⟩ := ofCriteria_eq_ok hm
    exact accepts_eq hvalue (by decide) hfilter hm h
  rows w hw := ⟨w, hw, fun _ _ h => h⟩

theorem confines_and (hvalue : value.isTests = false) (hmem : .eq field value ∈ cs) :
    (Criteria.logical .and cs).Confines field value where
  documents m hm record h := by
    obtain ⟨filter, hfilter, hm⟩ := ofCriteria_eq_ok hm
    cases cs with
    | nil => exact absurd hmem List.not_mem_nil
    | cons first rest =>
        simp only [toFilter] at hfilter
        obtain ⟨filters, hfilters, hfilter⟩ := bind_eq_ok.mp hfilter
        cases hfilter
        obtain ⟨parts, hparts⟩ := parts_of_connective .and hm
        rw [ofFilterAt_connective (by decide) .and hparts] at hm
        cases hm
        obtain ⟨d, m, hd, hm, hpart⟩ := matcher_of_mem 2 hfilters hparts hmem
        rw [accepts_all_singleton, Matcher.accepts] at h
        exact accepts_eq hvalue (by decide) hd hm (accepts_of_mem h hpart)
  rows w hw := by
    obtain ⟨⟨⟩, -, hw⟩ := bind_eq_ok.mp hw
    cases cs with
    | nil => exact absurd hmem List.not_mem_nil
    | cons first rest =>
        simp only [lowerCondition] at hw
        obtain ⟨parts, hparts, hw⟩ := bind_eq_ok.mp hw
        cases hw
        obtain ⟨test, htest, hpart⟩ := condition_of_mem hparts hmem
        exact ⟨test, condition_eq.trans htest, fun _ _ h => truth_of_mem h hpart⟩

theorem Demands.confines (h : c.Demands field value) (hvalue : value.isTests = false) :
    c.Confines field value := by
  rcases h with rfl | ⟨operands, rfl, hmem⟩
  · exact confines_eq hvalue
  · exact confines_and hvalue hmem

/-! ## What a request selects -/

theorem demands_of_allOf (h : .eq field value ∈ cs) :
    ∃ c, allOf cs = some c ∧ c.Demands field value := by
  match cs with
  | [] => exact absurd h List.not_mem_nil
  | [c] => exact ⟨c, rfl, .inl (List.mem_singleton.mp h).symm⟩
  | c :: d :: rest => exact ⟨_, rfl, .inr ⟨_, rfl, h⟩⟩

/-- A query takes nothing away from what a path demands. -/
theorem demands_of_restrict (h : c.Demands field value) (q : Option Criteria) :
    ∃ d, restrict (some c) q = some d ∧ d.Demands field value := by
  cases q with
  | none => exact ⟨c, by rcases h with rfl | ⟨_, rfl, -⟩ <;> rfl, h⟩
  | some q =>
      rcases h with rfl | ⟨operands, rfl, hmem⟩
      · exact ⟨_, rfl, .inr ⟨_, rfl, List.mem_cons_self⟩⟩
      · exact ⟨_, rfl, .inr ⟨_, rfl, List.mem_append_left _ hmem⟩⟩

theorem demands_of_withQuery {q : Option String} {selected : Option Criteria}
    (h : withQuery (some c) q = .ok selected) (hdemands : c.Demands field value) :
    ∃ d, selected = some d ∧ d.Demands field value := by
  unfold withQuery at h
  split at h
  · cases h
    exact demands_of_restrict hdemands none
  · split at h
    · cases h
      exact demands_of_restrict hdemands _
    · cases h

end Criteria

namespace Resource

variable {r : Resource} {params : Params} {name value : String}

theorem demands_of_pathRestriction (hname : name ∈ r.pathNames)
    (hvalue : params.lookup name = some value) :
    ∃ c, r.pathRestriction params = some c ∧ c.Demands (r.fieldOf name) (.string value) :=
  Criteria.demands_of_allOf (List.mem_filterMap.mpr ⟨name, hname, by rw [hvalue]; rfl⟩)

/-- Where the path stands alone, it confines to the value of each parameter. -/
theorem confines_of_pathRestriction (hname : name ∈ r.pathNames)
    (hvalue : params.lookup name = some value) :
    ∃ c, r.pathRestriction params = some c ∧ c.Confines (r.fieldOf name) (.string value) := by
  obtain ⟨c, hc, hdemands⟩ := demands_of_pathRestriction hname hvalue
  exact ⟨c, hc, hdemands.confines rfl⟩

/-- It does so with a query on top, whatever the query is. -/
theorem confines_of_withQuery (hname : name ∈ r.pathNames)
    (hvalue : params.lookup name = some value) {q : Option String} {selected : Option Criteria}
    (h : Criteria.withQuery (r.pathRestriction params) q = .ok selected) :
    ∃ c, selected = some c ∧ c.Confines (r.fieldOf name) (.string value) := by
  obtain ⟨c, hc, hdemands⟩ := demands_of_pathRestriction hname hvalue
  rw [hc] at h
  obtain ⟨d, hd, hdemands⟩ := Criteria.demands_of_withQuery h hdemands
  exact ⟨d, hd, hdemands.confines rfl⟩

end Resource

end Grove
