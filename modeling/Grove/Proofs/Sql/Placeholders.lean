import Grove.Proofs.Sql.Skeleton
import Grove.Proofs.Sql.Wording

/-!
# Placeholders and what is bound to them

The values of a statement go along beside its text, and only their places say which is which. So
the placeholders of the text have to be the numbers from one on, in order, with a value for each.
A value is also sent as what its column takes, so the column that goes with it has to be the one
that the text compares it with or writes it to.

`Lexeme.placed` reads both off the text: the numbers of the placeholders, and for each of them the
column in front of it. It looks backwards from a placeholder, so what it finds in a part of a
statement can depend on what is in front of the part; a part is `Aligned` if it does not.
-/

namespace Grove

open Sql (Condition)

namespace Sql

namespace Lexeme

/-- The column that a placeholder is compared with or written to, if there is one, by what stands
before it, the nearest first. Before it in a list of values are so many others. -/
def target : Nat → List Lexeme → Option String
  | 0, .operator symbol :: .identifier column :: _ =>
    if comparisons.contains symbol then some column else none
  | 0, .word "FROM" :: .word "DISTINCT" :: .word "IS" :: .identifier column :: _ => some column
  | _, .mark '(' :: .word "IN" :: .identifier column :: _ => some column
  | _, .mark '(' :: .word "IN" :: .word "NOT" :: .identifier column :: _ => some column
  | others, .mark '(' :: .word "VALUES" :: .mark ')' :: before =>
    ((before.takeWhile (· ≠ .mark '(')).filterMap name?).reverse[others]?
  | others, .mark ',' :: .parameter _ :: before => target (others + 1) before
  | _, _ => none

def placeholder? : Lexeme → Option String
  | .parameter digits => some digits
  | _ => none

/-- The placeholders, and the column of each. -/
def placed (before : List Lexeme) : List Lexeme → List (String × Option String)
  | [] => []
  | t :: ts =>
    (t.placeholder?.map fun digits => (digits, target 0 before)).toList ++ placed (t :: before) ts

variable {before ts us : List Lexeme}

theorem target_behind (others : Nat) (digits : String) (before : List Lexeme) :
    target others (.mark ',' :: .parameter digits :: before) = target (others + 1) before := by
  cases others <;> rfl

/-- A placeholder of the values of a record is written to the name at the same place. -/
theorem target_values (hts : .mark '(' ∉ ts) (others : Nat) (before : List Lexeme) :
    target others
      (.mark '(' :: .word "VALUES" :: .mark ')' :: (ts.reverse ++ .mark '(' :: before)) =
      (ts.filterMap name?)[others]? := by
  have hlisted : (ts.reverse ++ .mark '(' :: before).takeWhile (· ≠ .mark '(') = ts.reverse := by
    have hopen : (Lexeme.mark '(' :: before).takeWhile (· ≠ .mark '(') = [] := by simp
    rw [List.takeWhile_append_of_pos, hopen, List.append_nil]
    intro t ht
    have hne : t ≠ .mark '(' := fun h => hts (h ▸ List.mem_reverse.mp ht)
    simpa using hne
  have htarget : target others
      (.mark '(' :: .word "VALUES" :: .mark ')' :: (ts.reverse ++ .mark '(' :: before)) =
      (((ts.reverse ++ .mark '(' :: before).takeWhile
        (· ≠ .mark '(')).filterMap name?).reverse[others]? := by
    cases others <;> rfl
  rw [htarget, hlisted, List.filterMap_reverse, List.reverse_reverse]

theorem placed_append :
    placed before (ts ++ us) = placed before ts ++ placed (ts.reverse ++ before) us := by
  induction ts generalizing before with
  | nil => rfl
  | cons t ts ih =>
      rw [List.cons_append, placed, placed, ih, List.append_assoc, List.reverse_cons,
        List.append_assoc, List.singleton_append]

theorem placed_eq_nil (h : ∀ t ∈ ts, t.placeholder? = none) : placed before ts = [] := by
  induction ts generalizing before with
  | nil => rfl
  | cons t ts ih =>
      obtain ⟨ht, hts⟩ := List.forall_mem_cons.mp h
      rw [placed, ht, ih hts]
      rfl

end Lexeme

namespace Statement

open Lexeme (placed target)

variable {s t : Statement} {given : List (Json × Option String)}

def numbered (number : Nat) (given : List (Json × Option String)) :
    List (String × Option String) :=
  (given.zipIdx number).map fun p => (toString p.2, p.1.2)

theorem numbered_append (number : Nat) (given others : List (Json × Option String)) :
    numbered number (given ++ others) =
      numbered number given ++ numbered (number + given.length) others := by
  rw [numbered, List.zipIdx_append, List.map_append]
  rfl

/-- Wherever the statement stands, its placeholders are the numbers and the columns of its
parameters. -/
def Aligned (s : Statement) : Prop :=
  ∀ number before, placed before (lexemes number s) = numbered number s.parameters

/-- A word without placeholders. -/
def isQuiet (w : String) : Bool :=
  (Lexeme.ofText w).any fun us => us.all fun u => u.placeholder?.isNone

namespace Aligned

theorem nil : Aligned [] := fun _ _ => rfl

/-- Behind an aligned statement it is enough that the next one is aligned there. -/
theorem append_behind (hs : Aligned s)
    (ht : ∀ number before, placed ((lexemes number s).reverse ++ before)
      (lexemes (number + (parameters s).length) t) =
        numbered (number + (parameters s).length) t.parameters) : Aligned (s ++ t) := by
  intro number before
  rw [lexemes_append, Lexeme.placed_append, hs, ht, parameters_append, numbered_append]

theorem append (hs : Aligned s) (ht : Aligned t) : Aligned (s ++ t) :=
  hs.append_behind fun _ _ => ht _ _

theorem word {w : String} (hw : isQuiet w = true) (hs : Aligned s) : Aligned (.word w :: s) := by
  intro number before
  rw [isQuiet, Option.any_eq_true] at hw
  obtain ⟨us, hus, hquiet⟩ := hw
  have hnone : ∀ u ∈ us, u.placeholder? = none := by simpa using hquiet
  rw [lexemes_word hus, Lexeme.placed_append, Lexeme.placed_eq_nil hnone, hs]
  rfl

theorem name (n : String) (hs : Aligned s) : Aligned (.name n :: s) :=
  fun number before => hs number (.identifier n :: before)

theorem closed {w : String} (hs : Aligned s) (hw : isQuiet w = true) : Aligned (s ++ [.word w]) :=
  hs.append (nil.word hw)

theorem separate {separator : String} (hw : isQuiet separator = true) {parts : List Statement}
    (hparts : ∀ s ∈ parts, Aligned s) : Aligned (Statement.separate separator parts) := by
  induction parts with
  | nil => exact nil
  | cons s parts ih =>
      obtain ⟨hs, hrest⟩ := List.forall_mem_cons.mp hparts
      cases parts with
      | nil => exact hs
      | cons t parts => exact hs.append ((ih hrest).word hw)

end Aligned

/-- In a list, the place of a placeholder decides what its column is. -/
theorem placed_numberList {before : List Lexeme} {number : Nat}
    (h : ∀ k p, given[k]? = some p → target k before = p.2) :
    placed before (numberList number given.length) = numbered number given := by
  -- The first placeholder and its comma go over to what is before the others.
  induction given generalizing before number with
  | nil => rfl
  | cons p given ih =>
      have hfirst : target 0 before = p.2 := h 0 p rfl
      have hrest := @ih (.mark ',' :: .parameter (toString number) :: before) (number + 1)
        fun k q hq => (Lexeme.target_behind k _ before).trans (h (k + 1) q hq)
      cases given with
      | nil => exact congrArg (fun column => [(toString number, column)]) hfirst
      | cons q given =>
          have hnumbered : numbered number (p :: q :: given) =
              (toString number, p.2) :: numbered (number + 1) (q :: given) := rfl
          rw [hnumbered, ← hrest, ← hfirst]
          rfl

end Statement

namespace Condition

open Statement (Aligned isQuiet)

/-! ## Tests -/

theorem aligned_isNull (column : String) : Aligned (isNull column) :=
  (Aligned.nil.word (by decide)).name column

theorem aligned_isNotNull (column : String) : Aligned (isNotNull column) :=
  (Aligned.nil.word (by decide)).name column

theorem aligned_comparison {symbol : String} {us : List Lexeme}
    (hsymbol : Lexeme.ofText (" " ++ symbol ++ " ") = some us)
    (hquiet : ∀ u ∈ us, u.placeholder? = none) {column : String}
    (htarget : ∀ before, Lexeme.target 0 (us.reverse ++ .identifier column :: before) = some column)
    (value : Json) : Aligned (comparison column symbol value) := by
  intro number before
  have hplaced := htarget before
  rw [lexemes_comparison hsymbol, List.cons_append, Lexeme.placed, Lexeme.placed_append,
    Lexeme.placed_eq_nil hquiet, List.nil_append, Lexeme.placed, hplaced]
  rfl

theorem aligned_matching (column : String) (pattern : Json) :
    Aligned [.word "CAST(", .name column, .word " AS TEXT) ~ ", .parameter pattern none] := by
  intro number before
  rw [lexemes_matching]
  rfl

theorem aligned_containment (column : String) (value : Json) :
    Aligned (containment column value) := by
  obtain ⟨root, path, hsplit⟩ := List.exists_cons_of_ne_nil (Text.split_ne_nil '.' column)
  intro number before
  rw [lexemes_containment hsplit, containment_eq hsplit]
  rfl

theorem aligned_membership {op : Operator} (hop : op = .isIn ∨ op = .notIn) (column : String)
    (values : List Json) : Aligned (membership column op values) := by
  obtain ⟨us, hus, hquiet, htarget⟩ : ∃ us, Lexeme.ofText (" " ++ op.symbol ++ " (") = some us ∧
      (∀ u ∈ us, u.placeholder? = none) ∧ ∀ others before,
        Lexeme.target others (us.reverse ++ .identifier column :: before) = some column := by
    rcases hop with rfl | rfl
    · exact ⟨[.word "IN", .mark '('], by decide, by decide, fun others _ => by cases others <;> rfl⟩
    · exact ⟨[.word "NOT", .word "IN", .mark '('], by decide, by decide,
        fun others _ => by cases others <;> rfl⟩
  intro number before
  have hlisted : Lexeme.placed (us.reverse ++ .identifier column :: before)
      (Statement.numberList number (values.map fun v => (v, some column)).length) =
        Statement.numbered number (values.map fun v => (v, some column)) := by
    refine Statement.placed_numberList fun k p hp => ?_
    obtain ⟨v, -, rfl⟩ := List.mem_map.mp (List.mem_of_getElem? hp)
    exact htarget k before
  rw [List.length_map] at hlisted
  rw [parameters_membership, lexemes_membership hus, List.cons_append, List.cons_append,
    Lexeme.placed, Lexeme.placed_append, Lexeme.placed_append, Lexeme.placed_eq_nil hquiet, hlisted]
  simp [Lexeme.placed, Lexeme.placeholder?]

theorem aligned_arms {s t : Statement} {word : String} (hs : Aligned s)
    (hword : isQuiet word = true) (ht : Aligned t) :
    Aligned ([.word "("] ++ s ++ [.word word] ++ t ++ [.word ")"]) := by
  have harms := (hs.append (ht.word hword)).word (by decide : isQuiet "(" = true)
  have hclosed := harms.closed (by decide : isQuiet ")" = true)
  simpa using hclosed

theorem aligned_listTest {op : Operator} (hop : op = .isIn ∨ op = .notIn) (column : String)
    (items : List Json) : Aligned (listTest column op items) := by
  have hmember := aligned_membership hop column (items.filter fun v => !v.isNull)
  have hnull := aligned_isNull column
  have hnotNull := aligned_isNotNull column
  simp only [listTest]
  split
  · exact Aligned.nil.word (by decide)
  · exact hnull
  · exact hmember
  · exact aligned_arms hmember (by decide) hnull
  · exact Aligned.nil.word (by decide)
  · exact hnotNull
  · exact aligned_arms hnull (by decide) hmember
  · exact aligned_arms hnotNull (by decide) hmember

theorem parameters_listTest {op : Operator} (hop : op = .isIn ∨ op = .notIn) (column : String)
    (items : List Json) : (listTest column op items).parameters =
      (items.filter fun v => !v.isNull).map fun v => (v, some column) := by
  have hmember := parameters_membership column op (items.filter fun v => !v.isNull)
  simp only [listTest]
  cases hempty : (items.filter fun v => !v.isNull).isEmpty with
  | true =>
      rw [List.isEmpty_iff.mp hempty]
      rcases hop with rfl | rfl <;> cases items.any Json.isNull <;> rfl
  | false =>
      rcases hop with rfl | rfl <;> cases items.any Json.isNull <;>
        simp [hmember, isNull, isNotNull]

/-- A whole column is compared with a value, or asked whether it is null. -/
theorem aligned_flat {op : Comparison} (hop : op ∉ [.isIn, .notIn, .like]) (column : String)
    (value : Json) : Aligned (testStatement column (Criteria.operatorOf op) value) := by
  have hsymbol : ∀ symbol : String, symbol ∈ Lexeme.comparisons →
      Lexeme.ofText (" " ++ symbol ++ " ") = some [.operator symbol] →
      Aligned (comparison column symbol value) := fun symbol hmem hword =>
    aligned_comparison hword (by simp [Lexeme.placeholder?])
      (fun before => by simp [Lexeme.target, hmem]) value
  have hwords : Lexeme.ofText (" " ++ "IS DISTINCT FROM" ++ " ") =
      some [.word "IS", .word "DISTINCT", .word "FROM"] := by decide
  have hdistinct : Aligned (comparison column "IS DISTINCT FROM" value) :=
    aligned_comparison hwords (by decide) (fun _ => rfl) value
  cases op with
  | eq =>
      have hother := hsymbol "=" (by decide) (by decide)
      cases value with
      | null => exact aligned_isNull column
      | bool | number | string | array | object => exact hother
  | ne =>
      cases value with
      | null => exact aligned_isNotNull column
      | bool | number | string | array | object => exact hdistinct
  | gt => exact hsymbol ">" (by decide) (by decide)
  | gte => exact hsymbol ">=" (by decide) (by decide)
  | lt => exact hsymbol "<" (by decide) (by decide)
  | lte => exact hsymbol "<=" (by decide) (by decide)
  | isIn | notIn | like => exact absurd hop (by decide)

theorem aligned_grouped {parts : List Condition} {separator : String}
    (hseparator : isQuiet separator = true) (hparts : ∀ c ∈ parts, Aligned c.expression) :
    Aligned (.word "(" :: Statement.separate separator (expressions parts) ++ [.word ")"]) := by
  rw [expressions_eq_map]
  exact ((Aligned.separate hseparator (List.forall_mem_map.mpr hparts)).word (by decide)).closed
    (by decide)

theorem parameters_grouped (separator : String) (parts : List Condition) :
    (.word "(" :: Statement.separate separator (expressions parts) ++
      [.word ")"] : Statement).parameters = parts.flatMap fun c => c.expression.parameters := by
  rw [expressions_eq_map, Statement.parameters_append, Statement.parameters_word,
    Statement.parameters_separate, List.flatMap_map]
  simp

end Condition

end Sql

namespace Criteria

open Sql.Statement (Aligned)

/-! ## Criteria -/

/-- The values of a comparison, each with the column that it is compared with. Nulls are asked for
in words, and neither a pattern nor a value along a path is compared with the column itself. -/
def boundOfCompare (op : Comparison) (field : String) (value : Json) :
    List (Json × Option String) :=
  if Text.has field '.' then [(.string value.compact, none)]
  else
    match op, value with
    | .eq, .null | .ne, .null => []
    | .isIn, .array items | .notIn, .array items =>
      (items.filter fun v => !v.isNull).map fun v => (v, some field)
    | .like, .string text => [(.string (likePattern text), none)]
    | _, value => [(value, some field)]

mutual

/-- The values in criteria from left to right, each with the column that it is compared with. -/
def bound : Criteria → List (Json × Option String)
  | .compare op field value => boundOfCompare op field value
  | .between field lower upper => [(lower, some field), (upper, some field)]
  | .logical _ operands => boundOfAll operands

def boundOfAll : List Criteria → List (Json × Option String)
  | [] => []
  | c :: cs => bound c ++ boundOfAll cs

end

theorem aligned_lowering : LoweringInvariant fun _ w => Aligned w.expression where
  contains field value _ _ := Condition.aligned_containment field value
  lacks field value _ _ := (Condition.aligned_containment field value).word (by decide)
  flat op field value _ hop := Condition.aligned_flat hop field value
  list op field items _ hop := by
    cases op with
    | isIn => exact Condition.aligned_listTest (.inl rfl) field items
    | notIn => exact Condition.aligned_listTest (.inr rfl) field items
    | eq | ne | gt | gte | lt | lte | like => exact absurd hop (by decide)
  like field text _ := Condition.aligned_matching field (.string (likePattern text))
  between field lower upper := by
    have hgte := @Condition.aligned_flat .gte (by decide) field lower
    have hlte := @Condition.aligned_flat .lte (by decide) field upper
    exact Condition.aligned_grouped (by decide)
      (List.forall_mem_cons.mpr ⟨hgte, List.forall_mem_singleton.mpr hlte⟩)
  and operands parts _ hall := Condition.aligned_grouped (by decide) fun _ hpart =>
    (exists_related hall hpart).elim fun _ h => h.2
  or operands parts _ hall := Condition.aligned_grouped (by decide) fun _ hpart =>
    (exists_related hall hpart).elim fun _ h => h.2

theorem boundOfAll_eq {operands : List Criteria} {parts : List Condition}
    (h : List.Forall₂ (fun c w => w.expression.parameters = c.bound) operands parts) :
    (parts.flatMap fun c => c.expression.parameters) = boundOfAll operands := by
  induction h with
  | nil => rfl
  | cons hfirst _ ih => rw [List.flatMap_cons, boundOfAll, hfirst, ih]

theorem bound_lowering : LoweringInvariant fun c w => w.expression.parameters = c.bound where
  contains field value hpath _ := by
    obtain ⟨root, path, hsplit⟩ := List.exists_cons_of_ne_nil (Text.split_ne_nil '.' field)
    have hbound : boundOfCompare .eq field value = [(.string value.compact, none)] :=
      if_pos hpath.dotted
    rw [bound, hbound, Condition.expression, Condition.testStatement,
      Condition.containment_eq hsplit]
    rfl
  lacks field value hpath _ := by
    obtain ⟨root, path, hsplit⟩ := List.exists_cons_of_ne_nil (Text.split_ne_nil '.' field)
    have hbound : boundOfCompare .ne field value = [(.string value.compact, none)] :=
      if_pos hpath.dotted
    rw [bound, hbound, Condition.expression, Condition.testStatement,
      Condition.containment_eq hsplit]
    rfl
  flat op field value hflat hop := by
    unfold bound boundOfCompare
    rw [hflat]
    cases op with
    | eq | ne | gt | gte | lt | lte => cases value <;> rfl
    | isIn | notIn | like => exact absurd hop (by decide)
  list op field items hflat hop := by
    unfold bound boundOfCompare
    rw [hflat]
    cases op with
    | isIn => exact Condition.parameters_listTest (.inl rfl) field items
    | notIn => exact Condition.parameters_listTest (.inr rfl) field items
    | eq | ne | gt | gte | lt | lte | like => exact absurd hop (by decide)
  like field text hflat := by
    unfold bound boundOfCompare
    rw [hflat]
    rfl
  between field lower upper := by
    rw [bound]
    rfl
  and operands parts _ hall := by
    rw [bound, Condition.expression, Condition.parameters_grouped, boundOfAll_eq hall]
  or operands parts _ hall := by
    rw [bound, Condition.expression, Condition.parameters_grouped, boundOfAll_eq hall]

def boundBy : Option Criteria → List (Json × Option String)
  | none => []
  | some c => c.bound

theorem aligned_clause {c : Option Criteria} {w : Condition} (h : condition c = .ok w) :
    Aligned w.clause ∧ w.clause.parameters = boundBy c := by
  cases c with
  | none =>
      cases h
      exact ⟨.nil, rfl⟩
  | some c =>
      have haligned := aligned_lowering.of_condition h
      have hbound := bound_lowering.of_condition h
      cases w with
      | all => exact ⟨.nil, hbound⟩
      | test | and | or => exact ⟨haligned.word (by decide), hbound⟩

end Criteria

namespace Sql

open Statement (Aligned isQuiet)

/-! ## The five statements -/

theorem aligned_reference (t : Table) : Aligned t.reference :=
  ((Aligned.nil.name t.name).word (by decide)).name t.schema

theorem aligned_ordering (sort : List OrderKey) (primaryKey : String) :
    Aligned (ordering sort primaryKey) := by
  refine Aligned.word (by decide) ?_
  cases sort with
  | nil => exact Aligned.nil.name primaryKey
  | cons k sort =>
      refine Aligned.separate (by decide) (List.forall_mem_map.mpr fun k _ => ?_)
      cases k.descending with
      | true => exact (Aligned.nil.word (by decide)).name k.field
      | false => exact (Aligned.nil.word (by decide)).name k.field

theorem isQuiet_window (w : Window) :
    isQuiet (" LIMIT " ++ toString w.limit ++ " OFFSET " ++ toString w.offset) = true := by
  rw [isQuiet, ofText_window]
  rfl

theorem aligned_assignments (changes : Record) :
    Aligned (Statement.separate ", " (changes.fields.map fun f =>
      ([.name f.1, .word " = ", .parameter f.2 (some f.1)] : Statement))) := by
  refine Aligned.separate (by decide) (List.forall_mem_map.mpr fun f _ => ?_)
  have hequals : Lexeme.ofText (" " ++ "=" ++ " ") = some [.operator "="] := by decide
  exact Condition.aligned_comparison hequals (by decide) (fun _ => rfl) f.2

/-- Names with commas in between are read as the names and no parenthesis. -/
theorem lexemes_separate_names (number : Nat) (names : List String) :
    let us := Statement.lexemes number (Statement.separate ", " (names.map fun n => [.name n]))
    .mark '(' ∉ us ∧ us.filterMap Lexeme.name? = names := by
  have hcomma : Lexeme.ofText ", " = some [.mark ','] := by decide
  induction names with
  | nil => exact ⟨List.not_mem_nil, rfl⟩
  | cons n names ih =>
      cases names with
      | nil => exact ⟨by simp [Statement.separate], rfl⟩
      | cons m names =>
          have hseparate : Statement.separate ", " ((n :: m :: names).map fun n => [.name n]) =
              .name n :: .word ", " ::
                Statement.separate ", " ((m :: names).map fun n => [.name n]) := rfl
          rw [hseparate, Statement.lexemes_name, Statement.lexemes_word hcomma]
          exact ⟨by simpa using ih.1, congrArg (n :: ·) ih.2⟩

theorem target_of_names {us : List Lexeme} {fields : List (String × Json)}
    (hplain : .mark '(' ∉ us) (hnames : us.filterMap Lexeme.name? = fields.map (·.1)) {k : Nat}
    {p : Json × Option String} (hp : (fields.map fun f => (f.2, some f.1))[k]? = some p)
    (before : List Lexeme) :
    Lexeme.target k (.mark '(' :: .word "VALUES" :: .mark ')' ::
      (us.reverse ++ .mark '(' :: before)) = p.2 := by
  rw [List.getElem?_map] at hp
  obtain ⟨f, hf, rfl⟩ := Option.map_eq_some_iff.mp hp
  rw [Lexeme.target_values hplain, hnames, List.getElem?_map, hf]
  rfl

/-- The values of a record stand in the order of its names, so each is written to its own. -/
theorem aligned_values {s : Statement} (hs : Aligned s) (fields : List (String × Json)) :
    Aligned (s ++ .word " (" :: Statement.separate ", " (fields.map fun f => [.name f.1]) ++
      .word ") VALUES (" ::
        Statement.separate ", " (fields.map fun f => [.parameter f.2 (some f.1)])) := by
  have hopen : Lexeme.ofText " (" = some [.mark '('] := by decide
  have hbetween : Lexeme.ofText ") VALUES (" = some [.mark ')', .word "VALUES", .mark '('] := by
    decide
  let names : Statement := Statement.separate ", " (fields.map fun f => [.name f.1])
  have hnamed : Aligned names :=
    Aligned.separate (by decide) (List.forall_mem_map.mpr fun f _ => Aligned.nil.name f.1)
  let given : List (Json × Option String) := fields.map fun f => (f.2, some f.1)
  have hvalues : (fields.map fun f => ([.parameter f.2 (some f.1)] : Statement)) =
      given.map fun p => [.parameter p.1 p.2] := by simp [given]
  -- The values are aligned only behind the names, so `append` does not apply to them.
  refine (hs.append (hnamed.word (by decide))).append_behind fun number before => ?_
  obtain ⟨hplain, hlisted⟩ :=
    lexemes_separate_names (number + (Statement.parameters s).length) (fields.map (·.1))
  rw [List.map_map] at hplain hlisted
  rw [hvalues, Statement.parameters_word, Statement.parameters_separate_map (fun _ => rfl),
    List.map_id', Statement.lexemes_word hbetween, Statement.lexemes_separate_parameters,
    Statement.lexemes_append, Statement.lexemes_word hopen, ← Statement.placed_numberList]
  · rfl
  · intro k p hp
    rw [List.reverse_append, List.reverse_append, List.append_assoc, List.append_assoc]
    exact target_of_names hplain hlisted hp ((Statement.lexemes number s).reverse ++ before)

theorem aligned_insert (t : Table) (record : Record) : Aligned (insert t record) := by
  have hinto := (aligned_reference t).word (by decide : isQuiet "INSERT INTO " = true)
  have hdone := (aligned_values hinto record.fields).closed
    (by decide : isQuiet ") RETURNING *" = true)
  simpa [insert] using hdone

namespace Command

/-- The values that go along with the statement: those of its record, and then those of the
criteria. -/
def bound (c : Option Criteria) : Command → List (Json × Option String)
  | .select .. | .count | .delete => Criteria.boundBy c
  | .insert record => record.fields.map fun f => (f.2, some f.1)
  | .update changes => (changes.fields.map fun f => (f.2, some f.1)) ++ Criteria.boundBy c

theorem aligned_statement {filter : Condition} (hclause : Aligned filter.clause) {t : Table}
    {command : Command} {s : Statement} (hs : command.statement t filter = some s) :
    Aligned s := by
  have htable := aligned_reference t
  cases command with
  | select sort primaryKey w =>
      cases hs
      have hordered := (htable.append hclause).append (aligned_ordering sort primaryKey)
      exact (hordered.closed (isQuiet_window w)).word (by decide)
  | count | delete =>
      cases hs
      exact (htable.append hclause).word (by decide)
  | insert record =>
      cases hs
      exact aligned_insert t record
  | update changes =>
      rw [statement, Sql.update] at hs
      split at hs
      · cases hs
      · cases hs
        have hsets := (aligned_assignments changes).word (by decide : isQuiet " SET " = true)
        have hdone := ((htable.append hsets).append hclause).word
          (by decide : isQuiet "UPDATE " = true)
        simpa using hdone

theorem parameters_statement {c : Option Criteria} {filter : Condition}
    (hbound : filter.clause.parameters = Criteria.boundBy c) {t : Table} {command : Command}
    {s : Statement} (hs : command.statement t filter = some s) :
    s.parameters = command.bound c := by
  have htable : t.reference.parameters = [] := rfl
  cases command with
  | select sort primaryKey w =>
      cases hs
      have hordering : (ordering sort primaryKey).parameters = [] := by
        cases sort with
        | nil => rfl
        | cons k sort => exact Statement.parameters_separate_names (fun _ => rfl) ", " (k :: sort)
      simp [Sql.select, bound, htable, hbound, hordering]
  | count | delete =>
      cases hs
      simp [Sql.count, Sql.delete, bound, htable, hbound]
  | insert record =>
      cases hs
      have hnames := Statement.parameters_separate_names (fun _ => rfl :
        ∀ f : String × Json, Statement.parameters [.name f.1] = []) ", " record.fields
      have hvalues := Statement.parameters_separate_map (fun _ => rfl : ∀ f : String × Json,
        Statement.parameters [.parameter f.2 (some f.1)] = [(f.2, some f.1)]) ", " record.fields
      simp [Sql.insert, bound, htable, hnames, hvalues]
  | update changes =>
      have hsets := Statement.parameters_separate_map (fun _ => rfl : ∀ f : String × Json,
        Statement.parameters [.name f.1, .word " = ", .parameter f.2 (some f.1)] =
          [(f.2, some f.1)]) ", " changes.fields
      rw [statement, Sql.update] at hs
      split at hs
      · cases hs
      · cases hs
        simp [bound, htable, hbound, hsets]

/-- The placeholders of a statement are the numbers from one on in the order of the text, one for
each of its values, and each stands where the column of its value is compared or written. The
values are those of the record, and then those of the criteria from left to right. -/
theorem placeholders_aligned {c : Option Criteria} {filter : Condition}
    (hfilter : Criteria.condition c = .ok filter) {t : Table} {command : Command} {s : Statement}
    (hs : command.statement t filter = some s) :
    s.parameters = command.bound c ∧ ∃ ts, Lexeme.ofText s.text = some ts ∧
      Lexeme.placed [] ts = Statement.numbered 1 s.parameters := by
  obtain ⟨hclause, hbound⟩ := Criteria.aligned_clause hfilter
  have hphrase := phrase_statement (Criteria.checked_of_condition hfilter) hs
  refine ⟨parameters_statement hbound hs, _, (Statement.lexes_texts hphrase.toTidy).ofText, ?_⟩
  exact aligned_statement hclause hs 1 []

/-- The value that is set comes first. A null is not among the values, and neither a pattern nor a
value along a path has a column. -/
theorem placeholders_aligned_update :
    let c : Criteria := .logical .and [.compare .like "name" (.string "a%"),
      .logical .or [.compare .isIn "k" (.array [.null, .ofInt 1, .string "x"]),
        .between "n" (.ofInt 2) (.ofInt 5)],
      .compare .eq "p.q" (.string "y"), .compare .ne "gone" .null]
    ∃ filter s ts, Criteria.condition (some c) = .ok filter ∧
      (Command.update ⟨[("d", .bool true)]⟩).statement ⟨"s", "t"⟩ filter = some s ∧
      s.parameters.map (·.1) = [.bool true, .string "^a", .ofInt 1, .string "x", .ofInt 2,
        .ofInt 5, .string "\x22y\x22"] ∧
      Lexeme.ofText s.text = some ts ∧
      Lexeme.placed [] ts = [("1", some "d"), ("2", none), ("3", some "k"), ("4", some "k"),
        ("5", some "n"), ("6", some "n"), ("7", none)] := by
  intro c
  have hfilter : ∃ filter, Criteria.condition (some c) = .ok filter := ⟨_, rfl⟩
  obtain ⟨filter, hfilter⟩ := hfilter
  have hs : ∃ s, (Command.update ⟨[("d", .bool true)]⟩).statement ⟨"s", "t"⟩ filter = some s :=
    ⟨_, rfl⟩
  obtain ⟨s, hs⟩ := hs
  obtain ⟨hbound, ts, hts, hplaced⟩ := placeholders_aligned hfilter hs
  refine ⟨filter, s, ts, hfilter, hs, ?_, hts, ?_⟩
  · rw [hbound]
    rfl
  · rw [hplaced, hbound]
    rfl

end Command

end Sql

end Grove
