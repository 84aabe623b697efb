import Grove.Proofs.Sql.Fragments
import Grove.Proofs.Sql.Lowering
import Grove.Proofs.Text.Split

/-!
# Statements without fragments that run together

Every statement on a table is a phrase, whatever names and values callers choose: the words
between its names and parameters begin and end so that nothing else can join them. Paths are the
exception. Their inner names stand in a literal and are not quoted again, so they have to be
simple, and lowering criteria has seen to that (`Condition.Checked`).
-/

namespace Grove

open Sql (Operator Condition Statement Fragment)

namespace Sql

/-- The inner names of every path are simple, as lowering criteria has seen to. -/
inductive Condition.Checked : Condition → Prop
  | all : Checked .all
  | test {column : String} {op : Operator} {value : Json}
      (h : op = .contains ∨ op = .lacks →
        ∀ segment ∈ (Text.split '.' column).tail, Criteria.isSimpleSegment segment = true) :
      Checked (.test column op value)
  | and {parts : List Condition} (h : ∀ c ∈ parts, Checked c) : Checked (.and parts)
  | or {parts : List Condition} (h : ∀ c ∈ parts, Checked c) : Checked (.or parts)

end Sql

namespace Criteria

theorem checked_lowering : LoweringInvariant fun _ w => w.Checked where
  contains _ _ hpath _ := .test fun _ segment h => hpath.simple segment (List.mem_of_mem_tail h)
  lacks _ _ hpath _ := .test fun _ segment h => hpath.simple segment (List.mem_of_mem_tail h)
  flat op _ _ _ hop := by
    cases op with
    | eq | ne | gt | gte | lt | lte => exact .test nofun
    | isIn | notIn | like => exact absurd hop (by decide)
  list op _ _ _ hop := by
    cases op with
    | isIn | notIn => exact .test nofun
    | eq | ne | gt | gte | lt | lte | like => exact absurd hop (by decide)
  like _ _ _ := .test nofun
  between _ _ _ :=
    .and (List.forall_mem_cons.mpr ⟨.test nofun, List.forall_mem_singleton.mpr (.test nofun)⟩)
  and _ _ _ hall := .and fun _ hw => (exists_related hall hw).elim fun _ h => h.2
  or _ _ _ hall := .or fun _ hw => (exists_related hall hw).elim fun _ h => h.2

theorem checked_of_condition {c : Option Criteria} {w : Condition} (h : condition c = .ok w) :
    w.Checked := by
  cases c with
  | none =>
      cases h
      exact .all
  | some c => exact checked_lowering.of_condition h

end Criteria

namespace Sql

namespace Condition

open Statement (Phrase isClosing isOpening)

/-! ## Tests -/

theorem phrase_isNull (column : String) : Phrase (isNull column) :=
  (Phrase.name column).closed (by decide)

theorem phrase_isNotNull (column : String) : Phrase (isNotNull column) :=
  (Phrase.name column).closed (by decide)

theorem phrase_comparison (column : String) {symbol : String}
    (hclosing : isClosing (" " ++ symbol ++ " ") = true)
    (hopening : isOpening (" " ++ symbol ++ " ") = true) (value : Json) :
    Phrase (comparison column symbol value) :=
  (Phrase.name column).linked hclosing hopening (.parameter value (some column))

theorem phrase_membership (column : String) (op : Operator) (values : List Json) :
    Phrase (membership column op values) := by
  have hclosing : isClosing (" " ++ op.symbol ++ " (") = true := by cases op <;> decide
  have hopening : isOpening (" " ++ op.symbol ++ " (") = true := by cases op <;> decide
  have hvalues : Phrase (Statement.separate ", "
      (values.map fun v => [.parameter v (some column)])) := by
    refine .separate (by decide) (by decide) fun s hs => ?_
    obtain ⟨v, -, rfl⟩ := List.mem_map.mp hs
    exact .parameter v (some column)
  exact ((Phrase.name column).linked hclosing hopening hvalues).closed (by decide)

theorem phrase_arms {s t : Statement} {word : String} (hs : Phrase s)
    (hclosing : isClosing word = true) (hopening : isOpening word = true) (ht : Phrase t) :
    Phrase ([.word "("] ++ s ++ [.word word] ++ t ++ [.word ")"]) := by
  have harms := ((hs.linked hclosing hopening ht).opened (by decide : isOpening "(" = true))
  have hclosed := harms.closed (by decide : isClosing ")" = true)
  simpa using hclosed

theorem phrase_listTest (column : String) (op : Operator) (items : List Json) :
    Phrase (listTest column op items) := by
  have hmember := phrase_membership column op (items.filter fun v => !v.isNull)
  have hnull := phrase_isNull column
  have hnotNull := phrase_isNotNull column
  simp only [listTest]
  split
  · exact .word (by decide)
  · exact hnull
  · exact hmember
  · exact phrase_arms hmember (by decide) (by decide) hnull
  · exact .word (by decide)
  · exact hnotNull
  · exact phrase_arms hnull (by decide) (by decide) hmember
  · exact phrase_arms hnotNull (by decide) (by decide) hmember

/-- A containment test writes the first part of its path as a name and the others as a path. -/
theorem containment_eq {column root : String} {path : List String}
    (h : Text.split '.' column = root :: path) (value : Json) :
    containment column value =
      [.word "COALESCE(", .name root, .word " #> ", .path path, .word " @> CAST(",
        .parameter (.string value.compact) none, .word " AS JSONB), FALSE)"] := by
  rw [containment, h]

theorem phrase_containment {column : String} (value : Json)
    (hsegments : ∀ segment ∈ (Text.split '.' column).tail,
      Criteria.isSimpleSegment segment = true) : Phrase (containment column value) := by
  obtain ⟨root, path, hsplit⟩ := List.exists_cons_of_ne_nil (Text.split_ne_nil '.' column)
  rw [hsplit] at hsegments
  have hcast : Phrase [.word " @> CAST(", .parameter (.string value.compact) none,
      .word " AS JSONB), FALSE)"] :=
    ((Phrase.parameter _ _).closed (by decide)).opened (by decide)
  have hpath := Phrase.path hsegments (by rw [Fragment.mayPrecede]; decide) hcast
  rw [containment_eq hsplit]
  exact ((Phrase.name root).linked (by decide) (by decide) hpath).opened
    (by decide)

theorem phrase_testStatement {column : String} {op : Operator} (value : Json)
    (h : op = .contains ∨ op = .lacks → ∀ segment ∈ (Text.split '.' column).tail,
      Criteria.isSimpleSegment segment = true) : Phrase (testStatement column op value) := by
  have hsymbol : ∀ op : Operator, isClosing (" " ++ op.symbol ++ " ") = true ∧
      isOpening (" " ++ op.symbol ++ " ") = true := by
    intro op
    cases op <;> decide
  unfold testStatement
  split
  · exact phrase_containment value (h (.inl rfl))
  · exact (phrase_containment value (h (.inr rfl))).opened (by decide)
  · exact phrase_isNull column
  · exact phrase_isNotNull column
  · exact phrase_listTest column _ _
  · exact phrase_listTest column _ _
  · exact phrase_comparison column (by decide) (by decide) value
  · exact ((Phrase.name column).linked (by decide) (by decide)
      (.parameter value none)).opened (by decide)
  · exact phrase_comparison column (hsymbol op).1 (hsymbol op).2 value

/-! ## Conditions -/

theorem phrase_grouped {parts : List Statement} {separator : String}
    (hclosing : isClosing separator = true) (hopening : isOpening separator = true)
    (hparts : ∀ s ∈ parts, Phrase s) :
    Phrase (.word "(" :: Statement.separate separator parts ++ [.word ")"]) :=
  ((Phrase.separate hclosing hopening hparts).opened (by decide)).closed
    (by decide)

theorem expressions_eq_map (cs : List Condition) : expressions cs = cs.map expression := by
  induction cs with
  | nil => rfl
  | cons c cs ih => rw [expressions, ih, List.map_cons]

theorem phrase_expression {c : Condition} (h : c.Checked) : Phrase c.expression := by
  induction h with
  | all => exact .word (by decide)
  | test h => exact phrase_testStatement _ h
  | and _ ih =>
      rw [expression, expressions_eq_map]
      exact phrase_grouped (by decide) (by decide) (List.forall_mem_map.mpr ih)
  | or _ ih =>
      rw [expression, expressions_eq_map]
      exact phrase_grouped (by decide) (by decide) (List.forall_mem_map.mpr ih)

theorem phrase_clause {s : Statement} {c : Condition} (hs : Phrase s) (hc : c.Checked) :
    Phrase (s ++ c.clause) := by
  have hexpression := phrase_expression hc
  cases c with
  | all => simpa [clause] using hs
  | test | and | or => exact hs.linked (by decide) (by decide) hexpression

end Condition

/-! ## The five statements -/

open Statement (Phrase isClosing isOpening)

theorem phrase_reference (t : Table) : Phrase t.reference where
  sound := by
    have hpoint : (Fragment.word ".").isSound = true := by decide
    simpa [Table.reference, Fragment.isSound] using hpoint
  apart := by
    have hbefore : (Fragment.name t.schema).mayPrecede (.word ".") = true := by
      rw [Fragment.mayPrecede]
      rfl
    have hbehind : (Fragment.word ".").mayPrecede (.name t.name) = true := by
      rw [Fragment.mayPrecede]
      simp [Fragment.name?]
    exact List.isChain_cons_cons.mpr ⟨hbefore, List.isChain_cons_cons.mpr ⟨hbehind, .singleton _⟩⟩
  open_end := (Phrase.name t.name).open_end

theorem phrase_ordering {s : Statement} (hs : Phrase s) (sort : List OrderKey)
    (primaryKey : String) : Phrase (s ++ ordering sort primaryKey) := by
  refine hs.linked (by decide) (by decide) ?_
  split
  · exact .name primaryKey
  · refine .separate (by decide) (by decide) fun s hs => ?_
    obtain ⟨k, -, rfl⟩ := List.mem_map.mp hs
    have hdirection : ∀ descending : Bool,
        isClosing (if descending then " DESC" else " ASC") = true := by decide
    exact (Phrase.name k.field).closed (hdirection k.descending)

theorem isSound_limit : (Fragment.word " LIMIT ").isSound = true := by decide

theorem isSound_offset : (Fragment.word " OFFSET ").isSound = true := by decide

/-- The words of a window are two words and two numbers. -/
theorem ofText_window (w : Window) :
    Lexeme.ofText (" LIMIT " ++ toString w.limit ++ " OFFSET " ++ toString w.offset) =
      some [.word "LIMIT", .number (toString w.limit), .word "OFFSET",
        .number (toString w.offset)] := by
  obtain ⟨hlimit, hlimits⟩ := Lexeme.digits_toString w.limit
  obtain ⟨hoffset, hoffsets⟩ := Lexeme.digits_toString w.offset
  obtain ⟨-, -, -, hlimitWord⟩ := Fragment.lexemes_of_isSound isSound_limit
  obtain ⟨-, -, -, hoffsetWord⟩ := Fragment.lexemes_of_isSound isSound_offset
  have hend := Lexeme.lexes_number hoffset hoffsets .nil .nil
  have hlater := Lexeme.lexes_append hoffsetWord
    (by decide : Lexeme.ofText " OFFSET " = some [.word "OFFSET"])
    (.inl (Fragment.ended_of_isEnded (by decide))) hend
  have hspace : Lexeme.Closes (" OFFSET ".toList ++ ((toString w.offset).toList ++ [])) :=
    Fragment.closes_of_isCloser (by decide : (Fragment.word " OFFSET ").isCloser = true) 0 _
  have hnumbers := Lexeme.lexes_number hlimit hlimits hspace hlater
  have hwhole := Lexeme.lexes_append hlimitWord
    (by decide : Lexeme.ofText " LIMIT " = some [.word "LIMIT"])
    (.inl (Fragment.ended_of_isEnded (by decide))) hnumbers
  have htext : (" LIMIT " ++ toString w.limit ++ " OFFSET " ++ toString w.offset).toList =
      " LIMIT ".toList ++ ((toString w.limit).toList ++
        (" OFFSET ".toList ++ ((toString w.offset).toList ++ []))) := by
    simp only [String.toList_append, List.append_assoc, List.append_nil]
  refine Lexeme.Lexes.ofText ?_
  rw [htext]
  exact hwhole

theorem plain_window (w : Window) :
    ∀ c ∈ (" LIMIT " ++ toString w.limit ++ " OFFSET " ++ toString w.offset).toList,
      c ≠ '\x22' ∧ c ≠ '\x27' := by
  obtain ⟨-, -, -, hlimit⟩ := Fragment.lexemes_of_isSound isSound_limit
  obtain ⟨-, -, -, hoffset⟩ := Fragment.lexemes_of_isSound isSound_offset
  have hnumber : ∀ n : Nat, ∀ d ∈ (toString n).toList, d ≠ '\x22' ∧ d ≠ '\x27' := by
    intro n d hd
    have hdigit := Lexeme.not_mem_of_isDigit ((Lexeme.digits_toString n).2 d hd)
    simp only [List.mem_append, List.mem_cons, not_or] at hdigit
    exact ⟨hdigit.2.2.1, hdigit.2.2.2.1⟩
  simp only [String.toList_append, List.forall_mem_append]
  exact ⟨⟨⟨hlimit, hnumber w.limit⟩, hoffset⟩, hnumber w.offset⟩

theorem isClosing_window (w : Window) :
    isClosing (" LIMIT " ++ toString w.limit ++ " OFFSET " ++ toString w.offset) = true := by
  have hcloser : (Fragment.word
      (" LIMIT " ++ toString w.limit ++ " OFFSET " ++ toString w.offset)).isCloser = true := by
    simp [Fragment.isCloser, Lexeme.closers, Lexeme.spaces, Lexeme.marks]
  rw [isClosing, hcloser, Bool.and_true, Fragment.isSound, ofText_window, Bool.and_eq_true]
  exact ⟨rfl, List.all_eq_true.mpr fun c hc => by simpa using plain_window w c hc⟩

theorem phrase_select {t : Table} {filter : Condition} (hfilter : filter.Checked)
    (sort : List OrderKey) (primaryKey : String) (w : Window) :
    Phrase (select t filter sort primaryKey w) := by
  have hfrom := (phrase_reference t).opened (by decide : isOpening "SELECT * FROM " = true)
  have hordered := phrase_ordering (Condition.phrase_clause hfrom hfilter) sort primaryKey
  exact hordered.closed (isClosing_window w)

theorem phrase_count {t : Table} {filter : Condition} (hfilter : filter.Checked) :
    Phrase (count t filter) :=
  Condition.phrase_clause ((phrase_reference t).opened (by decide)) hfilter

theorem phrase_delete {t : Table} {filter : Condition} (hfilter : filter.Checked) :
    Phrase (delete t filter) :=
  Condition.phrase_clause ((phrase_reference t).opened (by decide)) hfilter

theorem phrase_insert (t : Table) (record : Record) : Phrase (insert t record) := by
  have hinto := (phrase_reference t).opened (by decide : isOpening "INSERT INTO " = true)
  have hnames : Phrase (Statement.separate ", "
      (record.fields.map fun f => ([.name f.1] : Statement))) := by
    refine .separate (by decide) (by decide) fun s hs => ?_
    obtain ⟨f, -, rfl⟩ := List.mem_map.mp hs
    exact .name f.1
  have hvalues : Phrase (Statement.separate ", "
      (record.fields.map fun f => ([.parameter f.2 (some f.1)] : Statement))) := by
    refine .separate (by decide) (by decide) fun s hs => ?_
    obtain ⟨f, -, rfl⟩ := List.mem_map.mp hs
    exact .parameter f.2 (some f.1)
  have hlists := (hinto.linked (by decide : isClosing " (" = true) (by decide)
    hnames).linked (by decide : isClosing ") VALUES (" = true) (by decide) hvalues
  have hdone := hlists.closed (by decide : isClosing ") RETURNING *" = true)
  simpa [insert] using hdone

theorem phrase_update {t : Table} {filter : Condition} (hfilter : filter.Checked)
    {changes : Record} {s : Statement} (h : update t filter changes = some s) : Phrase s := by
  unfold update at h
  split at h
  · cases h
  · cases h
    have hsets : Phrase (Statement.separate ", " (changes.fields.map fun f =>
        ([.name f.1, .word " = ", .parameter f.2 (some f.1)] : Statement))) := by
      refine .separate (by decide) (by decide) fun s hs => ?_
      obtain ⟨f, -, rfl⟩ := List.mem_map.mp hs
      exact (Phrase.name f.1).linked (by decide) (by decide)
        (.parameter f.2 (some f.1))
    have hupdate := (phrase_reference t).opened (by decide : isOpening "UPDATE " = true)
    have hset := hupdate.linked (by decide : isClosing " SET " = true) (by decide)
      hsets
    have hdone := Condition.phrase_clause hset hfilter
    simpa using hdone

end Sql

end Grove
