import Grove.Proofs.Criteria.Formula
import Grove.Proofs.Query.Parsing

/-!
# Every query runs on documents

Criteria that come from a query are of few shapes, which the grammar shows (`Asked`). Fields
are identifiers, lists stand where lists are wanted, a connective has operands, and no
constant is an object, so none can be taken for tests. The height is what the parser has
checked already. What is left for the filter to refuse is a pattern that is no regular
expression, and the compiler of filters, which reads the same criteria once more, has nothing
left to refuse.
-/

namespace Grove

namespace Criteria

/-- The criteria ask somewhere for a match of the pattern. -/
inductive HasPattern (pattern : String) : Criteria → Prop
  | like (field : String) : HasPattern pattern (.compare .like field (.string pattern))
  | operand {op : Connective} {c : Criteria} {cs : List Criteria} (hmem : c ∈ cs)
      (h : HasPattern pattern c) : HasPattern pattern (.logical op cs)

/-! ## Filters of operands -/

theorem refused_of_toFilters {cs : List Criteria} {e : CriteriaError}
    (h : toFilters cs = .error e) : ∃ c ∈ cs, c.toFilter = .error e := by
  induction cs with
  | nil => cases h
  | cons c cs ih =>
      rw [toFilters] at h
      cases hfirst : c.toFilter with
      | error e' =>
          rw [hfirst] at h
          cases h
          exact ⟨c, List.mem_cons_self, hfirst⟩
      | ok filter =>
          cases hrest : toFilters cs with
          | error e' =>
              rw [hfirst, hrest] at h
              cases h
              obtain ⟨d, hmem, hd⟩ := ih hrest
              exact ⟨d, List.mem_cons_of_mem c hmem, hd⟩
          | ok filters =>
              rw [hfirst, hrest] at h
              cases h

theorem filter_of_mem {c : Criteria} {cs : List Criteria} {filters : List Json}
    (h : toFilters cs = .ok filters) (hmem : c ∈ cs) : ∃ filter, c.toFilter = .ok filter := by
  induction cs generalizing filters with
  | nil => cases hmem
  | cons d cs ih =>
      obtain ⟨filter, hfirst, h⟩ := bind_eq_ok.mp h
      obtain ⟨filters', hrest, -⟩ := bind_eq_ok.mp h
      rcases List.mem_cons.mp hmem with rfl | hmem
      · exact ⟨filter, hfirst⟩
      · exact ih hrest hmem

/-- Criteria have a filter only if every pattern in them is a regular expression. -/
theorem HasPattern.parses {pattern : String} {c : Criteria} (hpattern : c.HasPattern pattern)
    {filter : Json} (h : c.toFilter = .ok filter) :
    ∃ regex, Regex.parse (likePattern pattern) = .ok regex := by
  induction hpattern generalizing filter with
  | like field =>
      obtain ⟨⟨⟩, -, h⟩ := bind_eq_ok.mp h
      obtain ⟨asked, hasked, -⟩ := bind_eq_ok.mp h
      obtain ⟨read, hread, -⟩ := map_eq_ok.mp hasked
      obtain ⟨text, regex, htext, -, hparse⟩ := readLike_eq_ok hread
      cases htext
      exact ⟨regex, hparse⟩
  | @operand op c cs hmem _ ih =>
      cases cs with
      | nil => cases hmem
      | cons first rest =>
          simp only [toFilter] at h
          obtain ⟨filters, hfilters, -⟩ := bind_eq_ok.mp h
          obtain ⟨filter', hfilter⟩ := filter_of_mem hfilters hmem
          exact ih hfilter

end Criteria

namespace Query

open Criteria (likePattern toFilter toFilters checkName EqualsValues AllEqualValues)

/-- What a query can stand for. -/
inductive Asked : Criteria → Prop
  | sign {f : String} {o : Comparison} {v : Json} (hf : IsField f) (ho : o ∈ Comparison.signs)
      (hv : v.isTests = false) : Asked (.compare o f v)
  | member {f : String} {o : Comparison} (hf : IsField f) (ho : o ∈ [.isIn, .notIn])
      (vs : List Json) : Asked (.compare o f (.array vs))
  | like {f : String} (hf : IsField f) (pattern : String) :
      Asked (.compare .like f (.string pattern))
  | between {f : String} (hf : IsField f) (v w : Json) : Asked (.between f v w)
  | logical {op : Connective} {cs : List Criteria} (hne : cs ≠ []) (h : ∀ c ∈ cs, Asked c) :
      Asked (.logical op cs)

/-! ## What the grammar asks -/

theorem IsConstant.not_isTests {t : Token} {v : Json} (h : IsConstant t v) :
    v.isTests = Bool.false := by
  cases h <;> rfl

theorem asked_of_isComparison {ts : List Token} {c : Criteria} (h : IsComparison ts c) :
    Asked c := by
  cases h with
  | sign hf ho hv => exact .sign hf ho hv.not_isTests
  | isIn hf _ _ => exact .member hf (by decide) _
  | notIn hf _ _ _ => exact .member hf (by decide) _
  | like hf _ pattern => exact .like hf pattern
  | between hf _ _ _ => exact .between hf _ _

section Chain

variable {item : List Token → Criteria → Prop}

theorem asked_of_chain (hitem : ∀ ts c, item ts c → Asked c) {separator : Token}
    {ts : List Token} {cs : List Criteria} (h : Chain item separator ts cs) :
    ∀ c ∈ cs, Asked c := by
  induction h with
  | one h => exact List.forall_mem_singleton.mpr (hitem _ _ h)
  | more h _ ih => exact List.forall_mem_cons.mpr ⟨hitem _ _ h, ih⟩

theorem asked_of_joined {op : Connective} {cs : List Criteria} {c : Criteria}
    (h : Joined op cs c) (hcs : ∀ d ∈ cs, Asked d) : Asked c := by
  cases h with
  | one => exact hcs _ List.mem_cons_self
  | many => exact .logical (List.cons_ne_nil _ _) hcs

theorem asked_of_isDisjunction (hitem : ∀ ts c, item ts c → Asked c) {ts : List Token}
    {c : Criteria} (h : IsDisjunction item ts c) : Asked c := by
  obtain ⟨cs, hchain, hjoined⟩ := h
  refine asked_of_joined hjoined (asked_of_chain (fun _ _ => ?_) hchain)
  rintro ⟨ds, hds, hd⟩
  exact asked_of_joined hd (asked_of_chain hitem hds)

end Chain

theorem asked_of_isUnit {depth : Nat} {ts : List Token} {c : Criteria} (h : IsUnit depth ts c) :
    Asked c := by
  induction depth generalizing ts c with
  | zero => exact asked_of_isComparison h
  | succ depth ih =>
      rcases h with h | ⟨inner, -, h⟩
      · exact asked_of_isComparison h
      · exact asked_of_isDisjunction (fun _ _ => ih) h

/-! ## What is asked has a filter -/

theorem checkName_of_isField {f : String} (h : IsField f) : checkName f = .ok () := by
  obtain ⟨⟨c, cs, hf, hc, -⟩, -⟩ := h
  have hempty : f ≠ "" := by
    rintro rfl
    cases hf
  have hdollar : c ≠ '$' := by
    rintro rfl
    revert hc
    decide
  rw [checkName, if_neg hempty, hf, if_neg (by simpa using hdollar)]

theorem fieldCheck_of_sign {o : Comparison} (ho : o ∈ Comparison.signs) (v : Json) :
    ∃ asked, Criteria.fieldCheck o v = .ok asked := by
  cases o with
  | eq | ne | gt | gte | lt | lte => exact ⟨_, rfl⟩
  | isIn | notIn | like => exact absurd ho (by decide)

theorem fieldCheck_of_member {o : Comparison} (ho : o ∈ [.isIn, .notIn]) (vs : List Json) :
    ∃ asked, Criteria.fieldCheck o (.array vs) = .ok asked := by
  cases o with
  | isIn | notIn => exact ⟨_, rfl⟩
  | eq | ne | gt | gte | lt | lte | like => exact absurd ho (by decide)

/-- Only a pattern that is no regular expression keeps what is asked from having a filter. -/
theorem Asked.refusal {c : Criteria} (hc : Asked c) {e : CriteriaError}
    (h : c.toFilter = .error e) :
    ∃ pattern reason, c.HasPattern pattern ∧ Regex.parse (likePattern pattern) = .error reason ∧
      e = .badPattern pattern reason.message := by
  induction hc with
  | sign hf ho _ =>
      obtain ⟨asked, hasked⟩ := fieldCheck_of_sign ho _
      rw [toFilter, checkName_of_isField hf, hasked] at h
      cases h
  | member hf ho vs =>
      obtain ⟨asked, hasked⟩ := fieldCheck_of_member ho vs
      rw [toFilter, checkName_of_isField hf, hasked] at h
      cases h
  | @like f hf pattern =>
      rw [toFilter, checkName_of_isField hf, Criteria.fieldCheck, Criteria.readLike] at h
      cases hparse : Regex.parse (likePattern pattern) with
      | error reason =>
          rw [hparse] at h
          cases h
          exact ⟨pattern, reason, .like f, hparse, rfl⟩
      | ok regex =>
          rw [hparse] at h
          cases h
  | between hf v w =>
      rw [toFilter, checkName_of_isField hf] at h
      cases h
  | @logical op cs hne _ ih =>
      cases cs with
      | nil => exact absurd rfl hne
      | cons first rest =>
          simp only [toFilter] at h
          cases hfilters : toFilters (first :: rest) with
          | ok filters =>
              rw [hfilters] at h
              cases h
          | error e' =>
              rw [hfilters] at h
              cases h
              obtain ⟨d, hmem, hd⟩ := Criteria.refused_of_toFilters hfilters
              obtain ⟨pattern, reason, hpattern, hparse, rfl⟩ := ih d hmem hd
              exact ⟨pattern, reason, .operand hmem hpattern, hparse, rfl⟩

theorem Asked.equalsValues {c : Criteria} (h : Asked c) : c.EqualsValues := by
  induction h with
  | sign _ _ hv => rw [EqualsValues]; exact fun _ => hv
  | member => rw [EqualsValues]; exact fun _ => rfl
  | like => rw [EqualsValues]; exact nofun
  | between => rw [EqualsValues]; trivial
  | @logical op cs _ _ ih =>
      rw [EqualsValues]
      clear * - ih
      induction cs with
      | nil => trivial
      | cons c cs ihs =>
          rw [List.forall_mem_cons] at ih
          rw [AllEqualValues]
          exact ⟨ih.1, ihs ih.2⟩

theorem asked_of_parse {q : String} {c : Criteria} (h : parse q = .ok c) : Asked c := by
  obtain ⟨ts, -, hderives, -⟩ := parse_eq_ok.mp h
  exact asked_of_isDisjunction (fun _ _ => asked_of_isUnit) hderives

/-- A query that is read runs on documents. Only a pattern in it that is no regular expression
is refused, as malformed criteria, and otherwise its filter compiles to a matcher of the
records for which the query, read as a formula, is true. -/
theorem parsed_runs_on_documents {q : String} {c : Criteria} (h : parse q = .ok c) :
    (∀ e, Criteria.filter (some c) = .error e →
      ∃ pattern reason, c.HasPattern pattern ∧
        Regex.parse (likePattern pattern) = .error reason ∧
        Failure.ofCriteria e =
          .malformedCriteria ("like pattern '" ++ pattern ++ "': " ++ reason.message)) ∧
    (∀ pattern reason, c.HasPattern pattern → Regex.parse (likePattern pattern) = .error reason →
      ∃ e, Criteria.filter (some c) = .error e) ∧
    ∀ filter, Criteria.filter (some c) = .ok filter →
      ∃ m, Matcher.ofFilter filter = .ok m ∧
        ∀ record, m.accepts record = true ↔ c.Holds record := by
  have hasked := asked_of_parse h
  obtain ⟨ts, -, -, hlevels⟩ := parse_eq_ok.mp h
  have hfilter : Criteria.filter (some c) = c.toFilter := by
    rw [Criteria.filter, (Criteria.checkHeight_eq_ok_iff c).mpr hlevels]
    rfl
  refine ⟨fun e he => ?_, fun pattern reason hpattern hreason => ?_, fun filter hf => ?_⟩
  · rw [hfilter] at he
    obtain ⟨pattern, reason, hpattern, hreason, rfl⟩ := hasked.refusal he
    exact ⟨pattern, reason, hpattern, hreason, rfl⟩
  · rw [hfilter]
    cases hf : c.toFilter with
    | error e => exact ⟨e, rfl⟩
    | ok filter =>
        obtain ⟨regex, hregex⟩ := hpattern.parses hf
        rw [hreason] at hregex
        cases hregex
  · obtain ⟨m, hm, hselects⟩ := Criteria.ofFilter_filter hf hasked.equalsValues
    refine ⟨m, hm, fun record => ?_⟩
    rw [hselects, Criteria.holds_iff_selects]

/-- A list deep in a record, a number between two integers, and a field that is not there; and
a pattern that opens a group and does not close it. -/
theorem parsed_runs_on_documents_nested :
    let q := "profile.tags = x and (age > 2.5 or name like \"jo%\") and gone in (7, null)"
    let c : Criteria := .logical .and
      [.eq "profile.tags" (.string "x"),
        .logical .or
          [.compare .gt "age" (.number (.float ⟨false, 0x14000000000000, 1023, by decide⟩)),
            .compare .like "name" (.string "jo%")],
        .compare .isIn "gone" (.array [.number (.int 7), .null])]
    let record : Record := ⟨[("age", .number (.int 3)),
      ("profile", .object [("tags", .array [.string "w", .string "x"])])]⟩
    parse q = .ok c ∧
      (∃ filter m, Criteria.filter (some c) = .ok filter ∧ Matcher.ofFilter filter = .ok m ∧
        m.accepts record = true ∧ m.accepts .empty = false) ∧
      parse "name like \"(%\"" = .ok (.compare .like "name" (.string "(%")) ∧
      ∃ e, Criteria.filter (some (.compare .like "name" (.string "(%"))) = .error e := by
  intro q c record
  have hscan : Token.scan q = .ok [.word "profile.tags", .op .eq, .word "x", .and, .leftParen,
      .word "age", .op .gt, .number (.float ⟨false, 0x14000000000000, 1023, by decide⟩), .or,
      .word "name", .word "like", .text "jo%", .rightParen, .and, .word "gone", .word "in",
      .leftParen, .number (.int 7), .comma, .word "null", .rightParen] := by decide +kernel
  have hparse : parse q = .ok c := by
    rw [parse, hscan]
    rfl
  have htags : (Criteria.eq "profile.tags" (.string "x")).Holds record :=
    .compare (.inl (.inside rfl (.inside rfl (.here (.array [.string "w", .string "x"])))))
      (.item (List.mem_cons_of_mem _ List.mem_cons_self) (.alike (by decide)) rfl)
  obtain ⟨m, hm, haccepts⟩ := (parsed_runs_on_documents hparse).2.2 _ rfl
  have hopen : parse "name like \"(%\"" = .ok (.compare .like "name" (.string "(%")) := by
    have hscan : Token.scan "name like \"(%\"" =
        .ok [.word "name", .word "like", .text "(%"] := by decide +kernel
    rw [parse, hscan]
    rfl
  have hage : (Criteria.compare .gt "age" (.number (.float ⟨false, 0x14000000000000, 1023,
      by decide⟩))).Holds record :=
    .compare (.inl (.inside rfl (.here (.number (.int 3))))) (.number (by decide +kernel))
  have hgone : (Criteria.compare .isIn "gone" (.array [.number (.int 7), .null])).Holds record :=
    .compare (Record.reads_iff.mpr rfl)
      ⟨_, rfl, .null, List.mem_cons_of_mem _ List.mem_cons_self, .whole (.alike rfl)⟩
  refine ⟨hparse, ⟨_, m, rfl, hm, (haccepts record).mpr ?_, ?_⟩, hopen, ?_⟩
  · refine .and (List.forall_mem_cons.mpr ⟨htags, List.forall_mem_cons.mpr ⟨?_, ?_⟩⟩)
    · exact .or List.mem_cons_self hage
    · exact List.forall_mem_singleton.mpr hgone
  · rw [Bool.eq_false_iff, Ne, haccepts, Criteria.holds_iff_selects]
    decide +kernel
  · exact (parsed_runs_on_documents hopen).2.1 "(%" _ (.like "name") rfl

end Query

end Grove
