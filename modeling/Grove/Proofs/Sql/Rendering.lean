import Grove.Proofs.Sql.Reading

/-!
# Conditions are understood as they are meant

The truth of a condition is said by its structure, and each of its tests by its operator, without
words. A list test is the one that takes several words to say, because null is neither one of the
values nor none of them. What criteria are lowered to has words for each of its parts
(`sound_lowering`), so its text is read, and as what is said here (`clause_read_as_meant`).
-/

namespace Grove.Sql

namespace Condition

open Expression (Sound)

theorem sound_memberReading (column : String) (items : List Json) :
    Sound (memberReading column items) ∧ Sound (strangerReading column items) := by
  simp only [memberReading, strangerReading]
  cases hempty : (items.filter fun v => !v.isNull).isEmpty with
  | true =>
      cases items.any Json.isNull with
      | true => exact ⟨.isNull column, .isNotNull column⟩
      | false => exact ⟨.constant false, .constant true⟩
  | false =>
      have hne : (items.filter fun v => !v.isNull) ≠ [] := by
        rw [Ne, ← List.isEmpty_iff, hempty]
        exact Bool.false_ne_true
      cases items.any Json.isNull with
      | true =>
          refine ⟨.or (List.cons_ne_nil _ _) ?_, .and (List.cons_ne_nil _ _) ?_⟩
          · exact List.forall_mem_cons.mpr
              ⟨.among hne column, List.forall_mem_singleton.mpr (.isNull column)⟩
          · exact List.forall_mem_cons.mpr
              ⟨.isNotNull column, List.forall_mem_singleton.mpr (.notAmong hne column)⟩
      | false =>
          refine ⟨.among hne column, .or (List.cons_ne_nil _ _) ?_⟩
          exact List.forall_mem_cons.mpr
            ⟨.isNull column, List.forall_mem_singleton.mpr (.notAmong hne column)⟩

theorem readings_eq_map (cs : List Condition) : readings cs = cs.map reading := by
  induction cs with
  | nil => rfl
  | cons c cs ih => rw [readings, ih, List.map_cons]

theorem sound_readings {cs : List Criteria} {ws : List Condition} (hne : cs ≠ [])
    (h : List.Forall₂ (fun _ w => w.reading.Sound) cs ws) :
    readings ws ≠ [] ∧ ∀ e ∈ readings ws, e.Sound := by
  rw [readings_eq_map]
  refine ⟨?_, List.forall_mem_map.mpr fun w hw => ?_⟩
  · intro hnil
    rw [List.map_eq_nil_iff] at hnil
    rw [hnil, List.forall₂_nil_right_iff] at h
    exact hne h
  · exact (Criteria.exists_related h hw).elim fun _ h => h.2

theorem sound_lowering : Criteria.LoweringInvariant fun _ w => w.reading.Sound where
  contains field value _ _ := .containing field value
  lacks field value _ _ := .not (.containing field value)
  flat op field value _ hop := by
    cases op with
    | eq =>
        cases value with
        | null => exact .isNull field
        | bool | number | string | array | object => exact .compared (by decide) field _
    | ne =>
        cases value with
        | null => exact .isNotNull field
        | bool | number | string | array | object => exact .distinct field _
    | gt | gte | lt | lte => exact .compared (by decide) field value
    | isIn | notIn | like => exact absurd hop (by decide)
  list op field items _ hop := by
    cases op with
    | isIn => exact (sound_memberReading field items).1
    | notIn => exact (sound_memberReading field items).2
    | eq | ne | gt | gte | lt | lte | like => exact absurd hop (by decide)
  like field text _ := .matching field _
  between field lower upper := by
    refine .and (List.cons_ne_nil _ _) (List.forall_mem_cons.mpr ⟨?_, ?_⟩)
    · exact .compared (by decide) field lower
    · exact List.forall_mem_singleton.mpr (.compared (by decide) field upper)
  and operands parts hne hall := .and (sound_readings hne hall).1 (sound_readings hne hall).2
  or operands parts hne hall := .or (sound_readings hne hall).1 (sound_readings hne hall).2

section Truth

variable {α : Type} (server : Server α) (row : String → Option α)

/-- Whether the column is one of the items. Null is one of them if there is a null among them. If
there is none, it is not known to be one of them, unless they are none at all. -/
def memberTruth (column : String) (items : List Json) : Truth :=
  match row column with
  | none =>
    if items.any Json.isNull then some true else if items.isEmpty then some false else none
  | some held =>
    Truth.any ((items.filter fun v => !v.isNull).map fun v =>
      server.compare "=" (some held) (server.bind v (some column)))

/-- Whether the column is none of the items. Null is none of them if there is no null among
them. -/
def strangerTruth (column : String) (items : List Json) : Truth :=
  match row column with
  | none => some (!items.any Json.isNull)
  | some held =>
    (Truth.any ((items.filter fun v => !v.isNull).map fun v =>
      server.compare "=" (some held) (server.bind v (some column)))).negation

/-- The truth of a test. Patterns and paths are tested as they are written. -/
def testTruth (column : String) (op : Operator) (value : Json) : Truth :=
  match op, value with
  | .contains, _ => Expression.holdsAlong server row column value
  | .lacks, _ => (Expression.holdsAlong server row column value).negation
  | .eq, .null => some (row column).isNone
  | .ne, .null => some (row column).isSome
  | .isIn, .array items => memberTruth server row column items
  | .notIn, .array items => strangerTruth server row column items
  | .ne, _ => some (server.differs (row column) (server.bind value (some column)))
  | .matchesPattern, _ =>
    server.compare "~" ((row column).bind (server.cast "TEXT")) (server.bind value none)
  | _, _ => server.compare op.symbol (row column) (server.bind value (some column))

mutual

/-- The truth of a condition in a row, by its structure. -/
def truth : Condition → Truth
  | .all => some true
  | .test column op value => testTruth server row column op value
  | .and parts => Truth.all (truthOfEach parts)
  | .or parts => Truth.any (truthOfEach parts)

def truthOfEach : List Condition → List Truth
  | [] => []
  | c :: cs => truth c :: truthOfEach cs

end

/-- Null is not known to be one of the values, which may be none. -/
theorem isAmong_none (values : List (Option α)) :
    server.isAmong none values = if values.isEmpty then some false else none := by
  cases values with
  | nil => rfl
  | cons v values =>
      refine Truth.any_eq_none (List.cons_ne_nil _ _) (List.forall_mem_map.mpr fun _ _ => rfl)

theorem isEmpty_of_isEmpty_present {items : List Json} (hnull : items.any Json.isNull = false) :
    (items.filter fun v => !v.isNull).isEmpty = items.isEmpty := by
  have hpresent : (items.filter fun v => !v.isNull) = items := by
    rw [List.filter_eq_self]
    simpa using hnull
  rw [hpresent]

/-- What a list test says in words is what it is meant to say. -/
theorem holds_listReading (column : String) (items : List Json) :
    (memberReading column items).holds server row = memberTruth server row column items ∧
      (strangerReading column items).holds server row =
        strangerTruth server row column items := by
  simp only [memberReading, strangerReading, memberTruth, strangerTruth]
  cases hcell : row column with
  | none =>
      -- Nothing is known of the values, so the test for null decides, if there is one.
      have hamong := isAmong_none server
      cases hnull : items.any Json.isNull with
      | false =>
          have hpresent := isEmpty_of_isEmpty_present hnull
          cases hempty : items.isEmpty with
          | true => simp [hpresent, hempty, Expression.holds]
          | false =>
              simp [hpresent, hempty, Expression.holds, Expression.holdsEach, hcell, hamong,
                Truth.any_some_pair]
      | true =>
          cases hempty : (items.filter fun v => !v.isNull).isEmpty with
          | true => simp [Expression.holds, hcell]
          | false =>
              simp [Expression.holds, Expression.holdsEach, hcell, Truth.any_pair_some,
                Truth.all_some_pair]
  | some held =>
      cases hempty : (items.filter fun v => !v.isNull).isEmpty with
      | true =>
          rw [List.isEmpty_iff.mp hempty]
          cases items.any Json.isNull <;> simp [Expression.holds, hcell] <;> decide
      | false =>
          cases items.any Json.isNull <;>
            simp [Expression.holds, Expression.holdsEach, hcell, Server.isAmong,
              Function.comp_def, Truth.any_pair_some, Truth.any_some_pair, Truth.all_some_pair]

theorem holds_testReading (column : String) (op : Operator) (value : Json) :
    (testReading column op value).holds server row = testTruth server row column op value := by
  cases op with
  | isIn =>
      cases value with
      | array items => exact (holds_listReading server row column items).1
      | null | bool | number | string | object => rfl
  | notIn =>
      cases value with
      | array items => exact (holds_listReading server row column items).2
      | null | bool | number | string | object => rfl
  | eq | ne | gt | gte | lt | lte | matchesPattern | contains | lacks => cases value <;> rfl

mutual

theorem holds_reading (c : Condition) : c.reading.holds server row = c.truth server row := by
  match c with
  | .all => rfl
  | .test column op value => exact holds_testReading server row column op value
  | .and parts => exact congrArg Truth.all (holdsEach_readings parts)
  | .or parts => exact congrArg Truth.any (holdsEach_readings parts)

theorem holdsEach_readings (cs : List Condition) :
    Expression.holdsEach server row (readings cs) = truthOfEach server row cs := by
  match cs with
  | [] => rfl
  | c :: cs => exact congrArg₂ List.cons (holds_reading c) (holdsEach_readings cs)

end

end Truth

/-- The text of a condition is an expression by the ranks of the operators in it, and in every row
that expression is true, false or unknown as the condition is by its structure. The numbers of its
parameters go on from those of the values before it. -/
theorem clause_read_as_meant {c : Option Criteria} {w : Condition}
    (h : Criteria.condition c = .ok w) (before : List (Json × Option String)) :
    ∃ ts e, Lexeme.ofText (String.join (Statement.texts (before.length + 1) w.clause)) = some ts ∧
      Term.ofClause ts = some e ∧
      ∀ (α : Type) (server : Server α) (row : String → Option α),
        e.truth server row (before ++ w.clause.parameters) = w.truth server row := by
  have hphrase := phrase_clause .nil (Criteria.checked_of_condition h)
  have htext := (@Statement.lexes_texts _ (before.length + 1) hphrase.toTidy).ofText
  cases c with
  | none =>
      cases h
      exact ⟨_, .constant true, htext, rfl, fun α server _ =>
        congrArg some (server.isTrue_boolean true)⟩
  | some c =>
      have hsound := sound_lowering.of_condition h
      have hreadAs := Expression.readAs_words hsound
      rw [words_reading] at hreadAs
      obtain ⟨items, e, hgroups, hwhole, he, hmeaning⟩ := hreadAs (before.length + 1)
      have hwhere : Lexeme.ofText " WHERE " = some [.word "WHERE"] := by decide
      have hlexemes : Statement.lexemes (before.length + 1) (.word " WHERE " :: w.expression) =
          .word "WHERE" :: Statement.lexemes (before.length + 1) w.expression :=
        Statement.lexemes_word hwhere w.expression
      -- Only `all` has no text. Criteria do not become it, but it is understood too.
      cases w with
      | all => exact ⟨_, .constant true, htext, rfl, fun α server _ =>
          congrArg some (server.isTrue_boolean true)⟩
      | test | and | or =>
          refine ⟨_, e, htext.trans (congrArg some hlexemes),
            Term.ofLexemes_of_groups hgroups hwhole he, fun α server row => ?_⟩
          have hends := hmeaning α server row before [] rfl
          rw [List.append_nil] at hends
          exact hends.trans (holds_reading server row _)

/-- A null is one of the items if there is a null among them, and the value of a statement before
the condition does not shift the ones in it. -/
theorem clause_read_as_meant_nested :
    let c : Criteria := .logical .or [.logical .and [
      .compare .notIn "k" (.array [.null, .string "x"]), .compare .ne "p.q" (.string "y")],
      .compare .isIn "n" (.array [])]
    let server : Server Bool := ⟨fun _ _ => some true, fun _ => true, fun _ => some,
      fun _ a b => some (a == b), id, id, fun _ => rfl⟩
    let set : Json × Option String := (.string "x", some "k")
    ∃ w ts e, Criteria.condition (some c) = .ok w ∧
      Lexeme.ofText (String.join (Statement.texts 2 w.clause)) = some ts ∧
      Term.ofClause ts = some e ∧
      e.truth server (fun _ => none) (set :: w.clause.parameters) = some false ∧
      e.truth server (fun name => if name = "k" then some false else none)
        (set :: w.clause.parameters) = some true := by
  intro c server set
  have hcondition : ∃ w, Criteria.condition (some c) = .ok w := ⟨_, rfl⟩
  obtain ⟨w, hw⟩ := hcondition
  obtain ⟨ts, e, hts, he, hmeaning⟩ := clause_read_as_meant hw [set]
  refine ⟨w, ts, e, hw, hts, he, (hmeaning Bool server _).trans ?_,
    (hmeaning Bool server _).trans ?_⟩
  · cases hw
    decide +kernel
  · cases hw
    decide +kernel

end Condition

end Grove.Sql
