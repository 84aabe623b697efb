import Grove.Proofs.Sql.Phrases

/-!
# What the lexemes of a statement depend on

Callers choose the names and the values of a statement. Its skeleton is the statement without
them: every name is empty, a value only says whether it is null, a list which of its values
are, and a record how many fields it has. The skeleton keeps what the writer of the statement
decides by, the numbers of the window, and the inner names of a path, which are checked when
criteria are lowered (`Condition.Checked`).

A statement and its skeleton are the same fragments but for names and parameters, and neither
runs together anywhere, so a server reads both as the same lexemes (`statement_lexemes`). The
names in between come back as they were, one identifier each.
-/

namespace Grove

open Sql (Operator Condition Statement Fragment)

/-- What is left of a value: whether it is there. -/
def Json.presence (v : Json) : Json := if v.isNull then .null else .bool true

namespace Sql

namespace Condition

/-- A column without its name. Of a path into a column the inner names are left. -/
def blankColumn (op : Operator) (column : String) : String :=
  match op with
  | .contains | .lacks => String.intercalate "." ("" :: (Text.split '.' column).tail)
  | _ => ""

def blankValue (op : Operator) (value : Json) : Json :=
  match op, value with
  | .isIn, .array items | .notIn, .array items => .array (items.map Json.presence)
  | _, value => value.presence

mutual

/-- The condition without names and values. -/
def skeleton : Condition → Condition
  | .all => .all
  | .test column op value => .test (blankColumn op column) op (blankValue op value)
  | .and parts => .and (skeletons parts)
  | .or parts => .or (skeletons parts)

def skeletons : List Condition → List Condition
  | [] => []
  | c :: cs => skeleton c :: skeletons cs

end

/-- The names that a test writes: its column, as often as there are arms of the test that need
it, and only the first part of a path. -/
def testNames (column : String) (op : Operator) (value : Json) : List String :=
  match op, value with
  | .contains, _ | .lacks, _ => (Text.split '.' column).take 1
  | .isIn, .array items =>
    (if items.all Json.isNull then [] else [column]) ++
      if items.any Json.isNull then [column] else []
  | .notIn, .array items =>
    if items.all Json.isNull then if items.any Json.isNull then [column] else []
    else [column, column]
  | _, _ => [column]

mutual

def names : Condition → List String
  | .all => []
  | .test column op value => testNames column op value
  | .and parts | .or parts => namesOfAll parts

def namesOfAll : List Condition → List String
  | [] => []
  | c :: cs => names c ++ namesOfAll cs

end

end Condition

inductive Command where
  | select (sort : List OrderKey) (primaryKey : String) (window : Window)
  | count
  | insert (record : Record)
  | update (changes : Record)
  | delete

namespace Command

def statement (t : Table) (filter : Condition) : Command → Option Statement
  | .select sort primaryKey window => some (Sql.select t filter sort primaryKey window)
  | .count => some (Sql.count t filter)
  | .insert record => some (Sql.insert t record)
  | .update changes => Sql.update t filter changes
  | .delete => some (Sql.delete t filter)

def names (t : Table) (filter : Condition) (command : Command) : List String :=
  [t.schema, t.name] ++
    match command with
    | .select sort primaryKey _ =>
      filter.names ++ if sort = [] then [primaryKey] else sort.map (·.field)
    | .count | .delete => filter.names
    | .insert record => record.fields.map (·.1)
    | .update changes => changes.fields.map (·.1) ++ filter.names

def blankRecord (r : Record) : Record := ⟨r.fields.map fun _ => ("", .null)⟩

def skeleton : Command → Command
  | .select sort _ window => .select (sort.map fun k => ⟨"", k.descending⟩) "" window
  | .insert record => .insert (blankRecord record)
  | .update changes => .update (blankRecord changes)
  | command => command

end Command

namespace Statement

@[simp] theorem anonymous_cons (f : Fragment) (s : Statement) :
    anonymous (f :: s) = f.anonymous :: s.anonymous := rfl

@[simp] theorem anonymous_append (s t : Statement) :
    (s ++ t).anonymous = s.anonymous ++ t.anonymous := List.map_append

theorem separate_cons_cons (separator : String) (s t : Statement) (parts : List Statement) :
    separate separator (s :: t :: parts) =
      s ++ .word separator :: separate separator (t :: parts) := rfl

@[simp] theorem anonymous_separate (separator : String) (parts : List Statement) :
    (separate separator parts).anonymous = separate separator (parts.map anonymous) := by
  induction parts with
  | nil => rfl
  | cons s parts ih =>
      cases parts with
      | nil => rfl
      | cons t parts =>
          rw [separate_cons_cons, anonymous_append, List.map_cons, List.map_cons,
            separate_cons_cons, ← List.map_cons, ← ih]
          rfl

@[simp] theorem names_nil : names [] = [] := rfl

@[simp] theorem names_word (w : String) (s : Statement) : names (.word w :: s) = names s := rfl

@[simp] theorem names_name (n : String) (s : Statement) : names (.name n :: s) = n :: names s :=
  rfl

@[simp] theorem names_path (segments : List String) (s : Statement) :
    names (.path segments :: s) = names s := rfl

@[simp] theorem names_parameter (value : Json) (column : Option String) (s : Statement) :
    names (.parameter value column :: s) = names s := rfl

@[simp] theorem names_append (s t : Statement) : (s ++ t).names = s.names ++ t.names :=
  List.filterMap_append

theorem names_separate (separator : String) (parts : List Statement) :
    (separate separator parts).names = parts.flatMap names := by
  induction parts with
  | nil => rfl
  | cons s parts ih =>
      cases parts with
      | nil => simp [separate]
      | cons t parts =>
          rw [separate_cons_cons, names_append, names_word, List.flatMap_cons, ← ih]

/-- Where each part writes one name, the names of the parts are the names of the whole. -/
theorem names_separate_map {α : Type} {write : α → Statement} {name : α → String}
    (h : ∀ a, (write a).names = [name a]) (separator : String) (items : List α) :
    (separate separator (items.map write)).names = items.map name := by
  rw [names_separate, List.flatMap_map, List.map_eq_flatMap]
  simp only [h]

theorem names_separate_parameters {α : Type} {write : α → Statement}
    (h : ∀ a, (write a).names = []) (separator : String) (items : List α) :
    (separate separator (items.map write)).names = [] := by
  rw [names_separate, List.flatMap_map]
  simp [h]

end Statement

/-! ## Tests -/

namespace Condition

open Json (presence)

theorem isNull_presence (v : Json) : v.presence.isNull = v.isNull := by
  cases v <;> rfl

theorem isEmpty_present (items : List Json) :
    (items.filter fun v => !v.isNull).isEmpty = items.all Json.isNull := by
  rw [Bool.eq_iff_iff, List.isEmpty_iff, List.filter_eq_nil_iff, List.all_eq_true]
  simp

theorem anonymous_membership (column : String) (op : Operator) (values : List Json) :
    (membership column op values).anonymous =
      [.name "", .word (" " ++ op.symbol ++ " (")] ++
        Statement.separate ", " (List.replicate values.length [.parameter .null none]) ++
          [.word ")"] := by
  have hvalues : (values.map fun v => ([.parameter v (some column)] : Statement)).map
      Statement.anonymous = List.replicate values.length [.parameter .null none] := by
    rw [List.map_map, ← List.map_const']
    rfl
  rw [membership, Statement.anonymous_append, Statement.anonymous_append,
    Statement.anonymous_separate, hvalues]
  rfl

theorem anonymous_listTest (column : String) (op : Operator) (items : List Json) :
    (listTest "" op (items.map presence)).anonymous = (listTest column op items).anonymous := by
  have hany : (items.map presence).any Json.isNull = items.any Json.isNull := by
    simp [List.any_map, Function.comp_def, isNull_presence]
  have hpresent : (items.map presence).filter (fun v => !v.isNull) =
      (items.filter fun v => !v.isNull).map presence := by
    simp [List.filter_map, Function.comp_def, isNull_presence]
  simp only [listTest, hany, hpresent, List.isEmpty_map]
  split <;>
    simp [anonymous_membership, isNull, isNotNull, Fragment.anonymous]

/-- Behind the first part of a blank path comes what came behind it before. -/
theorem split_blankColumn {column root : String} {path : List String} {op : Operator}
    (hop : op = .contains ∨ op = .lacks) (h : Text.split '.' column = root :: path) :
    Text.split '.' (blankColumn op column) = "" :: path := by
  have hblank : blankColumn op column = String.intercalate (String.singleton '.') ("" :: path) := by
    rcases hop with rfl | rfl <;> rw [blankColumn, h] <;> rfl
  rw [hblank]
  refine Text.split_intercalate (List.cons_ne_nil _ _) (List.forall_mem_cons.mpr ⟨rfl, ?_⟩)
  intro piece hpiece
  refine Text.has_split (s := column) ?_
  rw [h]
  exact List.mem_cons_of_mem root hpiece

theorem anonymous_containment {op : Operator} (hop : op = .contains ∨ op = .lacks)
    (column : String) (value : Json) :
    (containment (blankColumn op column) value.presence).anonymous =
      (containment column value).anonymous := by
  obtain ⟨root, path, hsplit⟩ := List.exists_cons_of_ne_nil (Text.split_ne_nil '.' column)
  rw [containment_eq hsplit, containment_eq (split_blankColumn hop hsplit)]
  rfl

theorem anonymous_testStatement (column : String) (op : Operator) (value : Json) :
    (testStatement (blankColumn op column) op (blankValue op value)).anonymous =
      (testStatement column op value).anonymous := by
  cases op with
  | contains => exact anonymous_containment (.inl rfl) column value
  | lacks =>
      exact congrArg (Fragment.word "NOT " :: ·) (anonymous_containment (.inr rfl) column value)
  | isIn | notIn =>
      cases value with
      | array items => exact anonymous_listTest column _ items
      | null | bool | number | string | object => rfl
  | eq | ne | gt | gte | lt | lte | matchesPattern => cases value <;> rfl

theorem names_membership (column : String) (op : Operator) (values : List Json) :
    (membership column op values).names = [column] := by
  have hvalues := Statement.names_separate_parameters
    (fun v => rfl : ∀ v : Json, Statement.names [.parameter v (some column)] = []) ", " values
  rw [membership, Statement.names_append, Statement.names_append, hvalues]
  rfl

theorem names_testStatement (column : String) (op : Operator) (value : Json) :
    (testStatement column op value).names = testNames column op value := by
  obtain ⟨root, path, hsplit⟩ := List.exists_cons_of_ne_nil (Text.split_ne_nil '.' column)
  cases op with
  | contains | lacks => simp [testStatement, containment_eq hsplit, testNames, hsplit]
  | isIn | notIn =>
      cases value with
      | array items =>
          simp only [testStatement, testNames, listTest, isEmpty_present]
          cases items.all Json.isNull <;> cases items.any Json.isNull <;>
            simp [names_membership, isNull, isNotNull]
      | null | bool | number | string | object => rfl
  | eq | ne | gt | gte | lt | lte | matchesPattern => cases value <;> rfl

/-! ## Conditions -/

mutual

theorem anonymous_expression (c : Condition) :
    c.skeleton.expression.anonymous = c.expression.anonymous := by
  match c with
  | .all => rfl
  | .test column op value => exact anonymous_testStatement column op value
  | .and parts | .or parts => simp [skeleton, expression, anonymous_expressions parts]

theorem anonymous_expressions (cs : List Condition) :
    (expressions (skeletons cs)).map Statement.anonymous =
      (expressions cs).map Statement.anonymous := by
  match cs with
  | [] => rfl
  | c :: cs =>
      simp [skeletons, expressions, anonymous_expression c, anonymous_expressions cs]

end

mutual

theorem names_expression (c : Condition) : c.expression.names = c.names := by
  match c with
  | .all => rfl
  | .test column op value => exact names_testStatement column op value
  | .and parts | .or parts =>
      simp [expression, names, Statement.names_separate, names_expressions parts]

theorem names_expressions (cs : List Condition) :
    (expressions cs).flatMap Statement.names = namesOfAll cs := by
  match cs with
  | [] => rfl
  | c :: cs => simp [expressions, namesOfAll, names_expression c, names_expressions cs]

end

theorem anonymous_clause (c : Condition) : c.skeleton.clause.anonymous = c.clause.anonymous := by
  cases c with
  | all => rfl
  | test | and | or => exact congrArg (Fragment.word " WHERE " :: ·) (anonymous_expression _)

theorem names_clause (c : Condition) : c.clause.names = c.names := by
  cases c with
  | all => rfl
  | test | and | or => exact names_expression _

end Condition

/-! ## The five statements -/

theorem anonymous_ordering (sort : List OrderKey) (primaryKey : String) :
    (ordering (sort.map fun k => ⟨"", k.descending⟩) "").anonymous =
      (ordering sort primaryKey).anonymous := by
  cases sort with
  | nil => rfl
  | cons k sort => simp [ordering, Function.comp_def, Fragment.anonymous]

theorem names_ordering (sort : List OrderKey) (primaryKey : String) :
    (ordering sort primaryKey).names = if sort = [] then [primaryKey] else sort.map (·.field) := by
  cases sort with
  | nil => rfl
  | cons k sort => exact Statement.names_separate_map (fun _ => rfl) ", " (k :: sort)

theorem anonymous_reference (t : Table) :
    (Table.reference ⟨"", ""⟩).anonymous = t.reference.anonymous := rfl

theorem names_reference (t : Table) : t.reference.names = [t.schema, t.name] := rfl

namespace Command

theorem anonymous_statement (t : Table) (filter : Condition) (command : Command) :
    (command.skeleton.statement ⟨"", ""⟩ filter.skeleton).map Statement.anonymous =
      (command.statement t filter).map Statement.anonymous := by
  have htable := anonymous_reference t
  have hclause := Condition.anonymous_clause filter
  cases command with
  | select sort primaryKey w =>
      have hordering := anonymous_ordering sort primaryKey
      simp [skeleton, statement, Sql.select, htable, hclause, hordering]
  | count => simp [skeleton, statement, Sql.count, htable, hclause]
  | delete => simp [skeleton, statement, Sql.delete, htable, hclause]
  | insert record =>
      simp [skeleton, statement, Sql.insert, blankRecord, htable, Fragment.anonymous,
        Function.comp_def]
  | update changes =>
      have hempty : (blankRecord changes).isEmpty = changes.isEmpty := List.isEmpty_map
      simp only [skeleton, statement, Sql.update, hempty]
      split
      · rfl
      · simp [blankRecord, htable, hclause, Fragment.anonymous, Function.comp_def]

theorem names_statement {t : Table} {filter : Condition} {command : Command} {s : Statement}
    (h : command.statement t filter = some s) : s.names = command.names t filter := by
  have htable := names_reference t
  have hclause := Condition.names_clause filter
  cases command with
  | select sort primaryKey w =>
      cases h
      simp [Sql.select, names, htable, hclause, names_ordering]
  | count =>
      cases h
      simp [Sql.count, names, htable, hclause]
  | delete =>
      cases h
      simp [Sql.delete, names, htable, hclause]
  | insert record =>
      cases h
      have hnames := Statement.names_separate_map
        (fun f => rfl : ∀ f : String × Json, Statement.names [.name f.1] = [f.1]) ", "
        record.fields
      have hvalues := Statement.names_separate_parameters (fun f => rfl :
        ∀ f : String × Json, Statement.names [.parameter f.2 (some f.1)] = []) ", " record.fields
      simp [Sql.insert, names, htable, hnames, hvalues]
  | update changes =>
      have hsets := Statement.names_separate_map (fun f => rfl : ∀ f : String × Json,
        Statement.names [.name f.1, .word " = ", .parameter f.2 (some f.1)] = [f.1]) ", "
        changes.fields
      rw [statement, Sql.update] at h
      split at h
      · cases h
      · cases h
        simp [names, htable, hclause, hsets]

theorem phrase_statement {t : Table} {filter : Condition} (hfilter : filter.Checked)
    {command : Command} {s : Statement} (h : command.statement t filter = some s) :
    s.Phrase := by
  cases command with
  | select sort primaryKey w =>
      cases h
      exact phrase_select hfilter sort primaryKey w
  | count =>
      cases h
      exact phrase_count hfilter
  | insert record =>
      cases h
      exact phrase_insert t record
  | update changes => exact phrase_update hfilter h
  | delete =>
      cases h
      exact phrase_delete hfilter

/-- Whatever the names and values are, the server reads the statement as the lexemes of its
skeleton, with each name in its place as one quoted identifier. -/
theorem statement_lexemes {c : Option Criteria} {filter : Condition}
    (hfilter : Criteria.condition c = .ok filter) {t : Table} {command : Command} {s : Statement}
    (hs : command.statement t filter = some s) :
    ∃ ts, Lexeme.ofText s.text = some ts ∧ ts.filterMap Lexeme.name? = command.names t filter ∧
      ∃ s₀ us, command.skeleton.statement ⟨"", ""⟩ filter.skeleton = some s₀ ∧
        Lexeme.ofText s₀.text = some us ∧ us.map Lexeme.anonymous = ts.map Lexeme.anonymous := by
  have hphrase := phrase_statement (Criteria.checked_of_condition hfilter) hs
  have hskeleton := anonymous_statement t filter command
  rw [hs, Option.map_some] at hskeleton
  obtain ⟨s₀, hs₀, hanonymous⟩ := Option.map_eq_some_iff.mp hskeleton
  obtain ⟨ts, us, hts, hnames, hus, halike⟩ := hphrase.toTidy.alike hanonymous
  refine ⟨ts, hts, ?_, s₀, us, hs₀, hus, halike⟩
  rw [hnames, names_statement hs]

/-- Quotes, parentheses and dollars of the names are read as part of them. -/
theorem statement_lexemes_quotes :
    ∃ (filter : Condition) (s : Statement) (ts us : List Lexeme),
      Criteria.condition (some (.logical .and
          [.compare .eq "a\x22 OR 1" (.string "\x27;"), .compare .ne "b.c_1" (.string "$9")])) =
        .ok filter ∧
      (Command.select [⟨"d$1)", true⟩] "id" ⟨10, 0⟩).statement ⟨"\x22\x22", "t; --"⟩ filter =
        some s ∧
      Lexeme.ofText s.text = some ts ∧
      ts.filterMap Lexeme.name? = ["\x22\x22", "t; --", "a\x22 OR 1", "b", "d$1)"] ∧
      Lexeme.ofText ("SELECT * FROM \x22\x22.\x22\x22 WHERE (\x22\x22 = $1 AND " ++
        "NOT COALESCE(\x22\x22 #> '\x7bc_1\x7d' @> CAST($2 AS JSONB), FALSE)) " ++
        "ORDER BY \x22\x22 DESC LIMIT 10 OFFSET 0") = some us ∧
      us.map Lexeme.anonymous = ts.map Lexeme.anonymous := by
  have hfilter : Criteria.condition (some (.logical .and
      [.compare .eq "a\x22 OR 1" (.string "\x27;"), .compare .ne "b.c_1" (.string "$9")])) =
      .ok (.and [.test "a\x22 OR 1" .eq (.string "\x27;"),
        .test "b.c_1" .lacks (.string "$9")]) := by
    rfl
  have hs : (Command.select [⟨"d$1)", true⟩] "id" ⟨10, 0⟩).statement ⟨"\x22\x22", "t; --"⟩
      (.and [.test "a\x22 OR 1" .eq (.string "\x27;"), .test "b.c_1" .lacks (.string "$9")]) =
      some _ := rfl
  obtain ⟨ts, hts, hnames, s₀, us, hs₀, hus, halike⟩ := statement_lexemes hfilter hs
  cases hs₀
  refine ⟨_, _, ts, us, hfilter, hs, hts, ?_, ?_, halike⟩
  · rw [hnames]
    decide +kernel
  · rw [← hus]
    refine congrArg Lexeme.ofText ?_
    decide +kernel

/-- The directions of the sort keys are words of the statement, so they are part of what is
read. -/
theorem direction_lexemes :
    ¬ ∀ (t : Table) (filter : Condition) (sort sort' : List OrderKey) (primaryKey : String)
      (w : Window), sort.map (·.field) = sort'.map (·.field) →
      Lexeme.ofText (Statement.text (Sql.select t filter sort primaryKey w)) =
        Lexeme.ofText (Statement.text (Sql.select t filter sort' primaryKey w)) := by
  intro h
  have hsame := h ⟨"s", "t"⟩ .all [⟨"a", false⟩] [⟨"a", true⟩] "id" ⟨10, 0⟩ rfl
  revert hsame
  decide +kernel

end Command

end Sql

end Grove
