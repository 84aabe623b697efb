import Grove.Document.Store
import Grove.Proofs.Http.Handled

/-!
# Criteria that are sent and read back

Nothing in the JSON form of criteria says which of the three forms it is, two of them share
the member `op` and two the member `var`, and a constant can itself look like criteria. A
reader goes by the first form that fits. What keeps the forms apart is that no connective is
written like a comparison, and that a range has no `op` at all. So it does not matter what
other members an object has, as long as it is none that the forms go by: `Encodes` says what
has to be there, and whatever encodes criteria is read as them (`ofJson?_of_encodes`).

What is written of criteria encodes them, and an enveloped list names the criteria that its
records were selected by, so a caller who reads that member has them back
(`criteria_echoed`). How JSON itself is written and read is another matter; the values here
are those that a text stands for.
-/

namespace Grove

namespace Criteria

mutual

/-- The value has the members that make it the JSON form of the criteria. It can have
others, except that a range has no `op`. -/
inductive Encodes : Json → Criteria → Prop
  | compare {members : List (String × Json)} {op : Comparison} {field : String} {value : Json}
      (hop : members.lookup "op" = some (.string op.symbol))
      (hvar : members.lookup "var" = some (.string field))
      (hval : members.lookup "val" = some value) :
      Encodes (.object members) (.compare op field value)
  | logical {members : List (String × Json)} {op : Connective} {items : List Json}
      {operands : List Criteria}
      (hop : members.lookup "op" = some (.string op.symbol))
      (hargs : members.lookup "args" = some (.array items))
      (each : EncodesEach items operands) : Encodes (.object members) (.logical op operands)
  | between {members ends : List (String × Json)} {field : String} {lower upper : Json}
      (noOp : members.lookup "op" = none)
      (hvar : members.lookup "var" = some (.string field))
      (hbetween : members.lookup "between" = some (.object ends))
      (hfrom : ends.lookup "from" = some lower)
      (hto : ends.lookup "to" = some upper) :
      Encodes (.object members) (.between field lower upper)

inductive EncodesEach : List Json → List Criteria → Prop
  | nil : EncodesEach [] []
  | cons {item : Json} {c : Criteria} {items : List Json} {cs : List Criteria}
      (first : Encodes item c) (rest : EncodesEach items cs) :
      EncodesEach (item :: items) (c :: cs)

end

/-! ## Reading -/

theorem ofSymbol?_connective (op : Connective) : Comparison.ofSymbol? op.symbol = none := by
  cases op <;> decide

theorem connective_ofSymbol?_symbol (op : Connective) :
    Connective.ofSymbol? op.symbol = some op := by
  cases op <;> decide

/-- The operands are those of the member that a look-up finds. -/
theorem operandsIn?_of_lookup {members : List (String × Json)} {items : List Json}
    (h : members.lookup "args" = some (.array items)) :
    operandsIn? members = operandList? items := by
  induction members with
  | nil => cases h
  | cons member rest ih =>
      obtain ⟨name, value⟩ := member
      rw [Record.lookup_cons_ite] at h
      rw [operandsIn?]
      by_cases hname : name = "args"
      · rw [if_pos hname.symm] at h
        cases h
        rw [if_pos hname, operands?]
      · rw [if_neg (Ne.symm hname)] at h
        rw [if_neg hname, ih h]

theorem comparison?_of_lookup {members : List (String × Json)} {op : Comparison} {field : String}
    {value : Json} (hop : members.lookup "op" = some (.string op.symbol))
    (hvar : members.lookup "var" = some (.string field))
    (hval : members.lookup "val" = some value) :
    comparison? members = some (.compare op field value) := by
  rw [comparison?, hop, hvar, hval]
  simp only [operatorName?, Option.bind_eq_bind, Option.bind_some, Comparison.ofSymbol?_symbol]
  rfl

/-- A connective is not taken for a comparison, whatever else the object has. -/
theorem comparison?_of_connective {members : List (String × Json)} {op : Connective}
    (h : members.lookup "op" = some (.string op.symbol)) : comparison? members = none := by
  rw [comparison?, h]
  simp only [operatorName?, Option.bind_eq_bind, Option.bind_some, ofSymbol?_connective]
  rfl

theorem comparison?_of_noOp {members : List (String × Json)}
    (h : members.lookup "op" = none) : comparison? members = none := by
  rw [comparison?, h]
  rfl

mutual

theorem ofJson?_of_encodes {j : Json} {c : Criteria} (h : Encodes j c) : ofJson? j = some c := by
  cases h with
  | compare hop hvar hval => rw [ofJson?, comparison?_of_lookup hop hvar hval]
  | logical hop hargs each =>
      rw [ofJson?, comparison?_of_connective hop, hop, operandsIn?_of_lookup hargs,
        operandList?_of_encodes each]
      simp only [operatorName?, Option.bind_some, connective_ofSymbol?_symbol]
  | between noOp hvar hbetween hfrom hto =>
      rw [ofJson?, comparison?_of_noOp noOp, noOp]
      simp only [Option.bind_none, range?, hvar, hbetween, Json.string?, bounds?, hfrom, hto,
        Option.bind_eq_bind, Option.bind_some]

theorem operandList?_of_encodes {items : List Json} {cs : List Criteria}
    (h : EncodesEach items cs) : operandList? items = some cs := by
  cases h with
  | nil => rfl
  | cons first rest =>
      rw [operandList?, ofJson?_of_encodes first, operandList?_of_encodes rest]
      rfl

end

/-! ## Writing -/

mutual

theorem encodes_toJson (c : Criteria) : Encodes c.toJson c := by
  cases c with
  | compare op field value => exact .compare rfl rfl rfl
  | logical op operands => exact .logical rfl rfl (encodes_operandsToJson operands)
  | between field lower upper => exact .between rfl rfl rfl rfl rfl

theorem encodes_operandsToJson (cs : List Criteria) : EncodesEach (operandsToJson cs) cs := by
  cases cs with
  | nil => exact .nil
  | cons c cs => exact .cons (encodes_toJson c) (encodes_operandsToJson cs)

end

end Criteria

namespace Http

variable {σ ρ : Type} {b : Backend σ ρ}

/-- The criteria that an enveloped list names, as a caller reads them. -/
def Response.criteria? (response : Response) : Option Criteria :=
  match response.content with
  | .json envelope => (envelope.record?.bind (·.get? "criteria")).bind Criteria.ofJson?
  | _ => none

theorem criteria?_pageEnvelope (c : Option Criteria) (o : Paging) (total : Nat) (documents : Json) :
    (Response.ok (pageEnvelope c o total documents)).criteria? = c := by
  have hmember : (pageEnvelope c o total documents).record?.bind (·.get? "criteria") =
      some (c.elim .null Criteria.toJson) := by
    simp [pageEnvelope, Json.ofFields, Json.record?, Record.ofList, Record.update, Record.get?,
      Record.insert, Record.lookup_insertField]
  rw [Response.criteria?, Response.ok]
  simp only [hmember, Option.bind_some]
  cases c with
  | none => rfl
  | some c => exact Criteria.ofJson?_of_encodes (Criteria.encodes_toJson c)

/-- A list that is answered in an envelope names what its records were selected by. -/
theorem Inquiry.list_enveloped {i : Inquiry} {s u : Service σ ρ} {response : Response}
    (h : (i.list b).outcome s = (.ok response, u)) (hmeta : wantsEnvelope i.query = true) :
    ∃ c o m v records queried total, i.listing = .ok (c, o) ∧
      (i.steward b).outcome s = (.ok m, v) ∧
      (m.query b c o).outcome v.state = (.ok records, queried) ∧
      response = .ok (pageEnvelope c o total (.array (records.map fun r => .object r.fields))) := by
  obtain ⟨⟨c, o⟩, hlisting, h⟩ := Attempt.outcome_liftM_bind_eq_ok.mp h
  obtain ⟨m, v, hm, h⟩ := Attempt.outcome_bind_eq_ok.mp h
  obtain ⟨records, w, hquery, h⟩ := Attempt.outcome_bind_eq_ok.mp h
  obtain ⟨queried, hqueried, rfl⟩ := Service.outcome_onBackend_eq_ok.mp hquery
  simp only [hmeta, Bool.not_true, Bool.false_eq_true, if_false] at h
  obtain ⟨total, w, -, h⟩ := Attempt.outcome_bind_eq_ok.mp h
  exact ⟨c, o, m, v, records, queried, total, hlisting, hm, hqueried,
    (Except.ok.inj (Prod.mk.inj h).1).symm⟩

/-- Criteria are read back from their JSON form as they were, also where that form has been
given other members. So the criteria that an enveloped list names are, when they are read,
the ones that its records were selected by. -/
theorem criteria_echoed :
    (∀ c : Criteria, Criteria.ofJson? c.toJson = some c) ∧
    (∀ (j : Json) (c : Criteria), Criteria.Encodes j c → Criteria.ofJson? j = some c) ∧
    ∀ {σ ρ : Type} (b : Backend σ ρ) (i : Inquiry) (s u : Service σ ρ) (response : Response),
      (i.list b).outcome s = (.ok response, u) → wantsEnvelope i.query = true →
      ∃ c o m v records queried, i.listing = .ok (c, o) ∧
        (i.steward b).outcome s = (.ok m, v) ∧
        (m.query b c o).outcome v.state = (.ok records, queried) ∧
        response.criteria? = c := by
  refine ⟨fun c => Criteria.ofJson?_of_encodes (Criteria.encodes_toJson c),
    fun _ _ => Criteria.ofJson?_of_encodes, fun b i s u response h hmeta => ?_⟩
  obtain ⟨c, o, m, v, records, queried, total, hlisting, hm, hquery, rfl⟩ :=
    Inquiry.list_enveloped h hmeta
  exact ⟨c, o, m, v, records, queried, hlisting, hm, hquery, criteria?_pageEnvelope c o total _⟩

def lookalike : Criteria :=
  .logical .and [
    .between "until" .null (.object [("args", .array []), ("op", .string "and")]),
    .logical .or [],
    .compare .isIn "op" (.array [.null, .object [("op", .string "="), ("var", .string "a")]])]

def bookings : Resource :=
  Config.place { resources := [{ name := "bookings" }] } { name := "bookings" }

def bookingsAsked : Inquiry :=
  Request.inquiry
    { method := "GET", target := "/bookings?q=room=7+or+hours+between+8+and+24&_meta" } bookings []

/-- The look-alike is read back, and so is a comparison in an object that has operands as
well. A list of bookings names the query that it was asked for. -/
theorem criteria_echoed_bookings :
    let s : Service Archive DocumentStore :=
      { tree := ⟨[bookings]⟩, state := { supply := ⟨fun _ => 0, fun _ => default, 0, 0⟩ } }
    Criteria.ofJson? lookalike.toJson = some lookalike ∧
    Criteria.ofJson? (.object [("args", .array [.null]), ("op", .string "="), ("val", .null),
      ("var", .string "op")]) = some (.eq "op" .null) ∧
    ∃ response u c, (bookingsAsked.list Archive.backend).outcome s = (.ok response, u) ∧
      response.criteria? = c ∧
      c.map Criteria.text = some "(room = 7 OR hours BETWEEN 8 AND 24)" := by
  intro s
  obtain ⟨hread, hencoded, hnamed⟩ := criteria_echoed
  have hcomparison : Criteria.Encodes (.object [("args", .array [.null]), ("op", .string "="),
      ("val", .null), ("var", .string "op")]) (.eq "op" .null) := .compare rfl rfl rfl
  refine ⟨hread lookalike, hencoded _ _ hcomparison, ?_⟩
  have hmeta : wantsEnvelope bookingsAsked.query = true := by decide +kernel
  have htext : (bookingsAsked.listing.toOption.bind (·.1)).map Criteria.text =
      some "(room = 7 OR hours BETWEEN 8 AND 24)" := by decide +kernel
  have hok : ((bookingsAsked.list Archive.backend).outcome s).1.toOption.isSome = true := by
    decide +kernel
  rcases hlist : (bookingsAsked.list Archive.backend).outcome s with ⟨f | response, u⟩ <;>
    rw [hlist] at hok
  · cases hok
  obtain ⟨c, o, -, -, -, -, hlisting, -, -, hcriteria⟩ :=
    hnamed Archive.backend bookingsAsked s u response hlist hmeta
  rw [hlisting] at htext
  exact ⟨response, u, c, rfl, hcriteria, htext⟩

end Http

end Grove
