import Grove.Proofs.Sql.Placeholders
import Grove.Proofs.Sql.Rendering

/-!
# What a statement asks a server for

A server reads a statement clause by clause. This module has its rules for two statements, an
`UPDATE` and a `SELECT` of all columns, as far as their answers depend on them: the table, the
condition, the keys of the order and the window. What an update sets is left out, since it does not
change how many rows it concerns.

The texts that statements are written as are read as what they were written from
(`ofText_update`, `ofText_select`), whatever names and values are in them.
-/

namespace Grove.Sql

inductive Request where
  | update (table : Table) (condition : Term)
  | select (table : Table) (condition : Term) (order : List OrderKey) (window : Window)

namespace Request

/-- What stands before the last word of a kind, and what behind it. -/
def cutLast (w : String) : List Lexeme → Option (List Lexeme × List Lexeme)
  | [] => none
  | t :: ts =>
    match cutLast w ts with
    | some (before, behind) => some (t :: before, behind)
    | none => if t = .word w then some ([], ts) else none

/-- One key of an order, which ascends unless it says otherwise. -/
def orderKey : List Lexeme → Option OrderKey
  | [.identifier name] | [.identifier name, .word "ASC"] => some ⟨name, false⟩
  | [.identifier name, .word "DESC"] => some ⟨name, true⟩
  | _ => none

def orderKeys (ts : List Lexeme) : Option (List OrderKey) :=
  (ts.splitOn (.mark ',')).mapM orderKey

def windowOf : List Lexeme → Option Window
  | [.number limit, .word "OFFSET", .number offset] => do
    return ⟨← Text.readDigits? limit.toList, ← Text.readDigits? offset.toList⟩
  | _ => none

def selection (table : Table) (ts : List Lexeme) : Option Request := do
  let (clause, ts) ← cutLast "ORDER" ts
  match ts with
  | .word "BY" :: ts =>
    let (keys, ts) ← cutLast "LIMIT" ts
    return .select table (← Term.ofClause clause) (← orderKeys keys) (← windowOf ts)
  | _ => none

def ofLexemes : List Lexeme → Option Request
  | .word "UPDATE" :: .identifier schema :: .mark '.' :: .identifier name :: .word "SET" :: ts =>
    (Term.ofClause (ts.dropWhile (· ≠ .word "WHERE"))).map (.update ⟨schema, name⟩)
  | .word "SELECT" :: .operator "*" :: .word "FROM" :: .identifier schema :: .mark '.' ::
      .identifier name :: ts => selection ⟨schema, name⟩ ts
  | _ => none

def ofText (sql : String) : Option Request := (Lexeme.ofText sql).bind ofLexemes

theorem cutLast_of_not_mem {w : String} {ts : List Lexeme} (h : .word w ∉ ts) :
    cutLast w ts = none := by
  induction ts with
  | nil => rfl
  | cons t ts ih =>
      rw [List.mem_cons, not_or] at h
      rw [cutLast, ih h.2]
      exact if_neg (Ne.symm h.1)

theorem cutLast_append {w : String} {behind : List Lexeme} (h : .word w ∉ behind)
    (before : List Lexeme) :
    cutLast w (before ++ .word w :: behind) = some (before, behind) := by
  induction before with
  | nil =>
      rw [List.nil_append, cutLast, cutLast_of_not_mem h]
      exact if_pos rfl
  | cons t before ih => rw [List.cons_append, cutLast, ih]

end Request

/-! ## The words of the statements -/

def orderOf (sort : List OrderKey) (primaryKey : String) : List OrderKey :=
  match sort with
  | [] => [⟨primaryKey, false⟩]
  | keys => keys

namespace Statement

variable {number : Nat}

theorem lexemes_reference (t : Table) (s : Statement) :
    lexemes number (t.reference ++ s) =
      .identifier t.schema :: .mark '.' :: .identifier t.name :: lexemes number s := by
  have hpoint : Lexeme.ofText "." = some [.mark '.'] := by decide
  have hreference : t.reference ++ s = .name t.schema :: .word "." :: .name t.name :: s := rfl
  rw [hreference, lexemes_name, lexemes_word hpoint, lexemes_name]
  rfl

/-- What holds of the words of each part and of the comma holds of the words of a list. -/
theorem forall_lexemes_separate {P : Lexeme → Prop} (hcomma : P (.mark ','))
    {parts : List Statement}
    (h : ∀ s ∈ parts, ∀ number, ∀ t ∈ lexemes number s, P t) :
    ∀ t ∈ lexemes number (separate ", " parts), P t := by
  have hword : Lexeme.ofText ", " = some [.mark ','] := by decide
  induction parts generalizing number with
  | nil => nofun
  | cons s parts ih =>
      rw [List.forall_mem_cons] at h
      cases parts with
      | nil => exact h.1 number
      | cons t parts =>
          rw [separate_cons_cons, lexemes_append, lexemes_word hword, List.singleton_append,
            List.forall_mem_append, List.forall_mem_cons]
          exact ⟨h.1 number, hcomma, ih h.2⟩

def keyLexemes (k : OrderKey) : List Lexeme :=
  [.identifier k.field, .word (if k.descending then "DESC" else "ASC")]

theorem orderKey_keyLexemes (k : OrderKey) : Request.orderKey (keyLexemes k) = some k := by
  obtain ⟨field, descending⟩ := k
  cases descending <;> rfl

theorem lexemes_key (k : OrderKey) :
    lexemes number [.name k.field, .word (if k.descending then " DESC" else " ASC")] =
      keyLexemes k := by
  have hword : Lexeme.ofText (if k.descending then " DESC" else " ASC") =
      some [.word (if k.descending then "DESC" else "ASC")] := by
    cases k.descending <;> decide
  rw [lexemes_name, lexemes_word hword]
  rfl

theorem lexemes_keys (number : Nat) (sort : List OrderKey) :
    lexemes number (separate ", " (sort.map fun k =>
      [.name k.field, .word (if k.descending then " DESC" else " ASC")])) =
        [.mark ','].intercalate (sort.map keyLexemes) := by
  have hword : Lexeme.ofText ", " = some [.mark ','] := by decide
  induction sort with
  | nil => rfl
  | cons k sort ih =>
      cases sort with
      | nil => exact (lexemes_key k).trans List.intercalate_singleton.symm
      | cons l sort =>
          rw [List.map_cons] at ih
          rw [List.map_cons, List.map_cons, separate_cons_cons, lexemes_append, lexemes_key,
            lexemes_word hword, List.map_cons, List.map_cons, List.intercalate_cons_cons,
            List.append_assoc, ← List.map_cons, ← ih]
          rfl

theorem orderKeys_keyLexemes {sort : List OrderKey} (h : sort ≠ []) :
    Request.orderKeys ([.mark ','].intercalate (sort.map keyLexemes)) = some sort := by
  have hcomma : ∀ l ∈ sort.map keyLexemes, Lexeme.mark ',' ∉ l :=
    List.forall_mem_map.mpr fun k _ => by simp [keyLexemes]
  have hread : ∀ sort : List OrderKey,
      (sort.map keyLexemes).mapM Request.orderKey = some sort := by
    intro sort
    induction sort with
    | nil => rfl
    | cons k sort ih => rw [List.map_cons, List.mapM_cons, orderKey_keyLexemes, ih]; rfl
  rw [Request.orderKeys, List.splitOn_intercalate _ hcomma (by simpa using h), hread]

/-- The words of an order are read as its keys, and are not the words that it begins with. -/
theorem lexemes_ordering (number : Nat) (sort : List OrderKey) (primaryKey : String) :
    ∃ keys, lexemes number (ordering sort primaryKey) = .word "ORDER" :: .word "BY" :: keys ∧
      .word "ORDER" ∉ keys ∧ Request.orderKeys keys = some (orderOf sort primaryKey) := by
  have hword : Lexeme.ofText " ORDER BY " = some [.word "ORDER", .word "BY"] := by decide
  cases sort with
  | nil =>
      refine ⟨[.identifier primaryKey], ?_, by simp, rfl⟩
      rw [ordering, lexemes_word hword]
      rfl
  | cons k sort =>
      refine ⟨_, ?_, ?_, orderKeys_keyLexemes (List.cons_ne_nil k sort)⟩
      · show lexemes number (.word " ORDER BY " :: separate ", " _) = _
        rw [lexemes_word hword, lexemes_keys]
        rfl
      · rw [← lexemes_keys 0]
        have hnone : ∀ t ∈ lexemes 0 (separate ", " ((k :: sort).map fun k =>
            [.name k.field, .word (if k.descending then " DESC" else " ASC")])),
              t ≠ .word "ORDER" := by
          refine forall_lexemes_separate (by decide) (List.forall_mem_map.mpr fun k _ number => ?_)
          rw [lexemes_key]
          cases hk : k.descending <;> simp [keyLexemes, hk]
        exact fun hmem => hnone _ hmem rfl

theorem windowOf_lexemes (w : Window) :
    Request.windowOf [.number (toString w.limit), .word "OFFSET", .number (toString w.offset)] =
      some w := by
  rw [Request.windowOf, Text.readDigits?_toString, Text.readDigits?_toString]
  rfl

end Statement

namespace Condition

theorem clause_of_ne_all {w : Condition} (hw : w ≠ .all) (number : Nat) :
    Statement.lexemes number w.clause =
        .word "WHERE" :: Statement.lexemes number w.expression ∧
      w.clause.parameters = w.expression.parameters := by
  have hwhere : Lexeme.ofText " WHERE " = some [.word "WHERE"] := by decide
  cases w with
  | all => exact absurd rfl hw
  | test | and | or => exact ⟨Statement.lexemes_word hwhere _, rfl⟩

/-- The clause of a condition is an expression that means the condition, whatever statement and
values are before it. -/
theorem exists_term {c : Option Criteria} {w : Condition} (h : Criteria.condition c = .ok w)
    (before : List (Json × Option String)) :
    ∃ e, Term.ofClause (Statement.lexemes (before.length + 1) w.clause) = some e ∧
      ∀ (α : Type) (server : Server α) (row : String → Option α),
        e.truth server row (before ++ w.clause.parameters) = w.truth server row := by
  have htrue : ∃ e, Term.ofClause [] = some e ∧
      ∀ (α : Type) (server : Server α) (row : String → Option α),
        e.truth server row (before ++ []) = some true :=
    ⟨.constant true, rfl, fun α server _ => congrArg some (server.isTrue_boolean true)⟩
  cases c with
  | none =>
      cases h
      exact htrue
  | some c =>
      have hreadAs := Expression.readAs_words (sound_lowering.of_condition h)
      rw [words_reading] at hreadAs
      obtain ⟨items, e, hgroups, hwhole, he, hmeaning⟩ := hreadAs (before.length + 1)
      by_cases hw : w = .all
      · subst hw
        exact htrue
      · refine ⟨e, ?_, fun α server row => ?_⟩
        · rw [(clause_of_ne_all hw _).1]
          exact Term.ofLexemes_of_groups hgroups hwhole he
        · have hends := hmeaning α server row before [] rfl
          rw [List.append_nil] at hends
          rw [(clause_of_ne_all hw 0).2]
          exact hends.trans (holds_reading server row _)

theorem dropWhile_lexemes_clause (w : Condition) (number : Nat) :
    (Statement.lexemes number w.clause).dropWhile (· ≠ .word "WHERE") =
      Statement.lexemes number w.clause := by
  by_cases hw : w = .all
  · subst hw
    rfl
  · rw [(clause_of_ne_all hw _).1]
    exact List.dropWhile_cons_of_neg (by simp)

end Condition

namespace Request

variable {c : Option Criteria} {w : Condition} {t : Table} {s : Statement}

/-- An update asks for the rows of its condition. -/
theorem ofText_update (h : Criteria.condition c = .ok w) {changes : Record}
    (hs : Sql.update t w changes = some s) :
    ∃ e, ofText s.text = some (.update t e) ∧
      ∀ (α : Type) (server : Server α) (row : String → Option α),
        e.truth server row s.parameters = w.truth server row := by
  have htext := (@Statement.lexes_texts _ 1
    (phrase_update (Criteria.checked_of_condition h) hs).toTidy).ofText
  rw [Sql.update] at hs
  split at hs
  · cases hs
  · have hbegin : Lexeme.ofText "UPDATE " = some [.word "UPDATE"] := by decide
    have hset : Lexeme.ofText " SET " = some [.word "SET"] := by decide
    have hequals : Lexeme.ofText " = " = some [.operator "="] := by decide
    let sets : Statement := Statement.separate ", " (changes.fields.map fun f =>
      [.name f.1, .word " = ", .parameter f.2 (some f.1)])
    have hstatement :
        s = .word "UPDATE " :: (t.reference ++ .word " SET " :: (sets ++ w.clause)) := by
      cases hs
      simp [sets]
    let given : List (Json × Option String) := changes.fields.map fun f => (f.2, some f.1)
    have hgiven : sets.parameters = given :=
      Statement.parameters_separate_map (fun _ => rfl) ", " changes.fields
    have hwords : ∀ u ∈ Statement.lexemes 1 sets, u ≠ .word "WHERE" := by
      refine Statement.forall_lexemes_separate (by decide) (List.forall_mem_map.mpr fun f _ k => ?_)
      rw [Statement.lexemes_name, Statement.lexemes_word hequals]
      simp
    obtain ⟨e, he, hmeaning⟩ := Condition.exists_term h given
    have hcondition : Term.ofClause ((Statement.lexemes 1 (sets ++ w.clause)).dropWhile
        (· ≠ .word "WHERE")) = some e := by
      rw [Statement.lexemes_append, List.dropWhile_append_of_pos (by simpa using hwords),
        Condition.dropWhile_lexemes_clause, hgiven, Nat.add_comm]
      exact he
    refine ⟨e, ?_, fun α server row => ?_⟩
    · have hlexemes : Statement.lexemes 1 s = .word "UPDATE" :: .identifier t.schema :: .mark '.' ::
          .identifier t.name :: .word "SET" :: Statement.lexemes 1 (sets ++ w.clause) := by
        rw [hstatement, Statement.lexemes_word hbegin, Statement.lexemes_reference,
          Statement.lexemes_word hset]
        rfl
      rw [ofText, Statement.text, htext, hlexemes, Option.bind_some, ofLexemes, hcondition]
      rfl
    · have hparameters : s.parameters = given ++ w.clause.parameters := by
        rw [hstatement, Statement.parameters_word, Statement.parameters_append,
          Statement.parameters_word, Statement.parameters_append, hgiven]
        rfl
      rw [hparameters]
      exact hmeaning α server row

/-- A selection asks for the rows of its condition, in its order and its window. -/
theorem ofText_select (h : Criteria.condition c = .ok w) (sort : List OrderKey)
    (primaryKey : String) (window : Window) :
    ∃ e, ofText (Statement.text (Sql.select t w sort primaryKey window)) =
        some (.select t e (orderOf sort primaryKey) window) ∧
      ∀ (α : Type) (server : Server α) (row : String → Option α),
        e.truth server row (Statement.parameters (Sql.select t w sort primaryKey window)) =
          w.truth server row := by
  have htext := (@Statement.lexes_texts _ 1
    (@phrase_select t w (Criteria.checked_of_condition h) sort primaryKey window).toTidy).ofText
  have hbegin : Lexeme.ofText "SELECT * FROM " =
      some [.word "SELECT", .operator "*", .word "FROM"] := by decide
  have hend := ofText_window window
  have hstatement : Sql.select t w sort primaryKey window =
      .word "SELECT * FROM " :: (t.reference ++ (w.clause ++ (ordering sort primaryKey ++
        [.word (" LIMIT " ++ toString window.limit ++ " OFFSET " ++
          toString window.offset)]))) := by
    simp [Sql.select]
  obtain ⟨e, he, hmeaning⟩ := Condition.exists_term h []
  have hordering : (ordering sort primaryKey).parameters = [] := by
    cases sort with
    | nil => rfl
    | cons k sort => exact Statement.parameters_separate_names (fun _ => rfl) ", " (k :: sort)
  refine ⟨e, ?_, fun α server row => ?_⟩
  · obtain ⟨keys, hkeys, hnone, horder⟩ := Statement.lexemes_ordering
      (1 + w.clause.parameters.length) sort primaryKey
    have hlast : .word "ORDER" ∉ Lexeme.word "BY" :: (keys ++ .word "LIMIT" ::
        [.number (toString window.limit), .word "OFFSET", .number (toString window.offset)]) := by
      simpa using hnone
    have hlimit : Lexeme.word "LIMIT" ∉ [Lexeme.number (toString window.limit), .word "OFFSET",
        .number (toString window.offset)] := by simp
    have hlexemes : Statement.lexemes 1 (Sql.select t w sort primaryKey window) =
        .word "SELECT" :: .operator "*" :: .word "FROM" :: .identifier t.schema :: .mark '.' ::
          .identifier t.name :: (Statement.lexemes 1 w.clause ++ .word "ORDER" :: (.word "BY" ::
            (keys ++ .word "LIMIT" :: [.number (toString window.limit), .word "OFFSET",
              .number (toString window.offset)]))) := by
      rw [hstatement, Statement.lexemes_word hbegin, Statement.lexemes_reference,
        Statement.lexemes_append, Statement.lexemes_append, hkeys, Statement.lexemes_word hend]
      rfl
    rw [ofText, Statement.text, htext, hlexemes, Option.bind_some, ofLexemes, selection,
      cutLast_append hlast]
    have hcondition : Term.ofClause (Statement.lexemes 1 w.clause) = some e := he
    simp only [Option.bind_eq_bind, Option.bind_some, cutLast_append hlimit, hcondition, horder,
      Statement.windowOf_lexemes]
    rfl
  · have hparameters : Statement.parameters (Sql.select t w sort primaryKey window) =
        [] ++ w.clause.parameters := by
      rw [hstatement, Statement.parameters_word, Statement.parameters_append,
        Statement.parameters_append, Statement.parameters_append, hordering]
      exact List.append_nil _
    rw [hparameters]
    exact hmeaning α server row

end Request

end Grove.Sql
