import Grove.Proofs.Sql.Expression
import Grove.Proofs.Sql.Ranks

/-!
# What the words of an expression are read as

The text of a condition has parentheses around every group and nowhere else, so it is the ranks of
the operators that keep the tests in it together. Here a server's reading of the text is followed
through each test and each group. `ReadAs` says of a statement what a group needs to know of its
parts: it is a row of items that no comma, `AND`, `OR` or `AS` divides, there is an expression for
it as a part of a conjunction, and that expression is true, false or unknown where the statement is
meant to be.
-/

namespace Grove.Sql

/-! ## Tests -/

namespace Expression

section Holds

variable {α : Type} (server : Server α) (row : String → Option α)

/-- Whether a column holds a value along a path, as it is asked in words. A path that leads nowhere
and an answer that is null are a no. -/
def holdsAlong (path : String) (value : Json) : Truth :=
  let names := Text.split '.' path
  let literal := "\x7b" ++ String.intercalate "," names.tail ++ "\x7d"
  let found := server.operation "#>" (row (names.headD path)) (some (server.literal literal))
  let asked := (server.bind (.string value.compact) none).bind (server.cast "JSONB")
  some ((server.compare "@>" found asked).getD false)

mutual

def holds : Expression → Truth
  | .constant b => some b
  | .isNull column => some (row column).isNone
  | .isNotNull column => some (row column).isSome
  | .compared column op value =>
    server.compare op.symbol (row column) (server.bind value (some column))
  | .distinct column value => some (server.differs (row column) (server.bind value (some column)))
  | .among column values =>
    server.isAmong (row column) (values.map fun v => server.bind v (some column))
  | .notAmong column values =>
    (server.isAmong (row column) (values.map fun v => server.bind v (some column))).negation
  | .matching column pattern =>
    server.compare "~" ((row column).bind (server.cast "TEXT")) (server.bind pattern none)
  | .containing path value => holdsAlong server row path value
  | .not e => (holds e).negation
  | .and parts => Truth.all (holdsEach parts)
  | .or parts => Truth.any (holdsEach parts)

def holdsEach : List Expression → List Truth
  | [] => []
  | e :: es => holds e :: holdsEach es

end

end Holds

end Expression

namespace Statement

open Term (Item Groups isWhole negation)

/-- What a statement means to say of a row. -/
abbrev Meaning := ∀ α : Type, Server α → (String → Option α) → Truth

/-- The statement is understood as a part of a conjunction, and as what it means to say. -/
def ReadAs (s : Statement) (meaning : Meaning) : Prop :=
  ∀ number, ∃ items e, Groups (lexemes number s) items ∧
    isWhole items = true ∧ negation items = some e ∧
    ∀ α (server : Server α) row before after, before.length + 1 = number →
      e.truth server row (before ++ parameters s ++ after) = meaning α server row

/-- A lexeme that neither opens nor closes a group nor divides one. -/
def isPlain (t : Lexeme) : Bool :=
  (t ≠ .mark '(' && t ≠ .mark ')') && !(Item.lexeme t).isLoose

/-- A test without parentheses. -/
theorem readAs_of_plain {s : Statement} {meaning : Meaning}
    (h : ∀ number, (lexemes number s).all isPlain = true ∧
      ∃ e, negation ((lexemes number s).map .lexeme) = some e ∧
        ∀ α (server : Server α) row before after, before.length + 1 = number →
          e.truth server row (before ++ parameters s ++ after) = meaning α server row) :
    ReadAs s meaning := by
  intro number
  obtain ⟨hplain, e, he, hmeaning⟩ := h number
  simp only [List.all_eq_true, isPlain, Bool.and_eq_true, decide_eq_true_eq,
    Bool.not_eq_true'] at hplain
  exact ⟨_, e, .flat fun t ht => (hplain t ht).1,
    Term.isWhole_iff.mpr (List.forall_mem_map.mpr fun t ht => (hplain t ht).2), he, hmeaning⟩

theorem readAs_constant (b : Bool) :
    ReadAs [.word (if b then "TRUE" else "FALSE")] fun _ _ _ => some b := by
  refine readAs_of_plain fun number => ?_
  have hlexemes : lexemes number [.word (if b then "TRUE" else "FALSE")] =
      [.word (if b then "TRUE" else "FALSE")] := by
    have hword : Lexeme.ofText (if b then "TRUE" else "FALSE") =
        some [.word (if b then "TRUE" else "FALSE")] := by
      cases b <;> decide
    exact lexemes_word hword []
  rw [hlexemes]
  refine ⟨by cases b <;> decide, .constant b, by cases b <;> rfl, fun α server row _ _ _ => ?_⟩
  exact congrArg some (server.isTrue_boolean b)

theorem readAs_isNull (column : String) :
    ReadAs (Condition.isNull column) fun _ _ row => some (row column).isNone := by
  refine readAs_of_plain fun number => ?_
  rw [Condition.lexemes_isNull]
  refine ⟨rfl, .isNull (.column column), rfl, fun α server row _ _ _ => ?_⟩
  exact congrArg some (server.isTrue_boolean _)

theorem readAs_isNotNull (column : String) :
    ReadAs (Condition.isNotNull column) fun _ _ row => some (row column).isSome := by
  refine readAs_of_plain fun number => ?_
  rw [Condition.lexemes_isNotNull]
  refine ⟨rfl, .isNotNull (.column column), rfl, fun α server row _ _ _ => ?_⟩
  exact congrArg some (server.isTrue_boolean _)

theorem readAs_comparison {symbol : String} (hsymbol : symbol ∈ Lexeme.comparisons)
    (hword : Lexeme.ofText (" " ++ symbol ++ " ") = some [.operator symbol]) (column : String)
    (value : Json) :
    ReadAs (Condition.comparison column symbol value) fun _ server row =>
      server.compare symbol (row column) (server.bind value (some column)) := by
  refine readAs_of_plain fun number => ?_
  rw [Condition.lexemes_comparison hword]
  refine ⟨rfl, .operation symbol (.column column) (.parameter number), ?_, ?_⟩
  · exact Term.negation_compared hsymbol column number
  · rintro α server row before after rfl
    have hvalue := Term.value_parameter server row before after (value, some column)
    exact congrArg (server.compare symbol (row column)) hvalue

theorem readAs_distinct (column : String) (value : Json) :
    ReadAs (Condition.comparison column "IS DISTINCT FROM" value) fun _ server row =>
      some (server.differs (row column) (server.bind value (some column))) := by
  refine readAs_of_plain fun number => ?_
  have hword : Lexeme.ofText (" " ++ "IS DISTINCT FROM" ++ " ") =
      some [.word "IS", .word "DISTINCT", .word "FROM"] := by decide
  rw [Condition.lexemes_comparison hword]
  refine ⟨rfl, .distinct (.column column) (.parameter number), ?_, ?_⟩
  · have hright : Term.comparison [.lexeme (.parameter (toString number))] =
        some (.parameter number) := Term.negation_parameter number
    have htest : negation (([.identifier column, .word "IS", .word "DISTINCT", .word "FROM",
        .parameter (toString number)] : List Lexeme).map .lexeme) =
        (Term.comparison [.lexeme (.parameter (toString number))]).bind
          fun right => some (.distinct (.column column) right) := rfl
    exact htest.trans (by rw [hright]; rfl)
  · rintro α server row before after rfl
    have hvalue := Term.value_parameter server row before after (value, some column)
    refine Eq.trans (congrArg some (server.isTrue_boolean _)) ?_
    exact congrArg (fun v => some (server.differs (row column) v)) hvalue

theorem readAs_matching (column : String) (pattern : Json) :
    ReadAs [.word "CAST(", .name column, .word " AS TEXT) ~ ", .parameter pattern none]
      fun _ server row => server.compare "~" ((row column).bind (server.cast "TEXT"))
        (server.bind pattern none) := by
  intro number
  let items : List Item := [.lexeme (.word "CAST"), .group [(.column column, some "TEXT")],
    .lexeme (.operator "~"), .lexeme (.parameter (toString number))]
  refine ⟨items, .operation "~" (.cast (.column column) "TEXT") (.parameter number), ?_, rfl,
    ?_, ?_⟩
  · have hinner : Groups [.identifier column, .word "AS", .word "TEXT"] _ := .flat (by simp)
    have hbehind : Groups [.operator "~", .parameter (toString number)] _ := .flat (by simp)
    rw [Condition.lexemes_matching]
    exact ((hinner.nested (Term.contents_cast rfl rfl)).append hbehind).cons nofun nofun
  · have hchain : negation items = (Term.operand [.lexeme (.parameter (toString number))]).map
        (.operation "~" (.cast (.column column) "TEXT")) := rfl
    rw [hchain, Term.operand_parameter]
    rfl
  · rintro α server row before after rfl
    have hvalue := Term.value_parameter server row before after (pattern, none)
    exact congrArg (server.compare "~" ((row column).bind (server.cast "TEXT"))) hvalue

/-- The list of a membership is one item. -/
theorem groups_numberList {count : Nat} (hcount : count ≠ 0) (number : Nat) :
    Groups (.mark '(' :: numberList number count ++ [.mark ')'])
      [.group ((Term.parametersFrom number count).map (·, none))] := by
  refine Groups.nested (.flat ?_) (Term.contents_numberList hcount number)
  clear hcount
  induction count generalizing number with
  | zero => exact List.forall_mem_nil _
  | succ count ih =>
      cases count with
      | zero => exact List.forall_mem_singleton.mpr ⟨nofun, nofun⟩
      | succ count =>
          have hcomma : Lexeme.mark ',' ≠ .mark '(' ∧ Lexeme.mark ',' ≠ .mark ')' := by decide
          exact List.forall_mem_cons.mpr
            ⟨⟨nofun, nofun⟩, List.forall_mem_cons.mpr ⟨hcomma, ih (number + 1)⟩⟩

/-- What a parameter list comes to, and what its column has to be compared with. -/
theorem values_membership {α : Type} (server : Server α) (row : String → Option α)
    (before after : List (Json × Option String)) (column : String) (op : Operator)
    (values : List Json) :
    Term.values server row (before ++ (Condition.membership column op values).parameters ++ after)
      (Term.parametersFrom (before.length + 1) values.length) =
        values.map fun v => server.bind v (some column) := by
  have hvalues := Term.values_parametersFrom server row before
    (values.map fun v => (v, some column)) after
  rw [List.length_map, List.map_map] at hvalues
  rw [Condition.parameters_membership]
  exact hvalues

/-- A column before the words of a list test and a list, where `make` is the expression of the
words and `meant` what they mean by the column being one of the values. -/
theorem readAs_membership {op : Operator} {words : List String} (make : Term → List Term → Term)
    (meant : Truth → Truth)
    (hword : Lexeme.ofText (" " ++ op.symbol ++ " (") = some (words.map .word ++ [.mark '(']))
    (hplain : isWhole (words.map fun w => .lexeme (.word w)) = true)
    (hmake : ∀ column contents, negation (.lexeme (.identifier column) ::
      words.map (fun w => .lexeme (.word w)) ++ [.group contents]) =
        (Term.listed contents).map (make (.column column)))
    (htruth : ∀ (α : Type) (server : Server α) row given e es,
      (make e es).truth server row given = meant (server.isAmong (e.value server row given)
        (Term.values server row given es)))
    (column : String) {values : List Json} (hvalues : values ≠ []) :
    ReadAs (Condition.membership column op values) fun _ server row =>
      meant (server.isAmong (row column) (values.map fun v => server.bind v (some column))) := by
  intro number
  let es := Term.parametersFrom number values.length
  refine ⟨.lexeme (.identifier column) :: words.map (fun w => .lexeme (.word w)) ++
    [.group (es.map (·, none))], make (.column column) es, ?_, ?_, ?_, ?_⟩
  · have hlist := groups_numberList (List.length_pos_iff.mpr hvalues).ne' number
    have hwords : Groups (words.map .word) _ := .flat (List.forall_mem_map.mpr fun _ _ =>
      ⟨nofun, nofun⟩)
    have hwhole := (hwords.append hlist).cons (t := .identifier column) nofun nofun
    rw [Condition.lexemes_membership hword]
    simpa [Function.comp_def] using hwhole
  · rw [isWhole] at hplain ⊢
    rw [List.all_append, List.all_cons, hplain]
    rfl
  · rw [hmake, Term.listed_untyped]
    rfl
  · rintro α server row before after rfl
    rw [htruth, values_membership]
    rfl

theorem readAs_among (column : String) {values : List Json} (hvalues : values ≠ []) :
    ReadAs (Condition.membership column .isIn values) fun _ server row =>
      server.isAmong (row column) (values.map fun v => server.bind v (some column)) := by
  have hword : Lexeme.ofText (" " ++ Operator.isIn.symbol ++ " (") =
      some (["IN"].map .word ++ [.mark '(']) := by decide
  exact readAs_membership .among id hword rfl
    (fun column contents => Option.map_eq_bind.symm)
    (fun α server row given e es => server.truth_ofTruth _) column hvalues

theorem readAs_notAmong (column : String) {values : List Json} (hvalues : values ≠ []) :
    ReadAs (Condition.membership column .notIn values) fun _ server row =>
      (server.isAmong (row column)
        (values.map fun v => server.bind v (some column))).negation := by
  have hword : Lexeme.ofText (" " ++ Operator.notIn.symbol ++ " (") =
      some (["NOT", "IN"].map .word ++ [.mark '(']) := by decide
  exact readAs_membership .notAmong Truth.negation hword rfl
    (fun column contents => Option.map_eq_bind.symm)
    (fun α server row given e es => server.truth_ofTruth _) column hvalues

/-- The items of a containment test between the outer parentheses are two expressions. -/
theorem contents_containment (root path : String) (number : Nat) :
    Term.contents [.lexeme (.identifier root), .lexeme (.operator "#>"), .lexeme (.literal path),
      .lexeme (.operator "@>"), .lexeme (.word "CAST"),
      .group [(.parameter number, some "JSONB")], .lexeme (.mark ','), .lexeme (.word "FALSE")] =
      some [(.operation "@>" (.operation "#>" (.column root) (.literal path))
        (.cast (.parameter number) "JSONB"), none), (.constant false, none)] := by
  have hfirst : isWhole [.lexeme (.identifier root), .lexeme (.operator "#>"),
      .lexeme (.literal path), .lexeme (.operator "@>"), .lexeme (.word "CAST"),
      .group [(.parameter number, some "JSONB")]] = true := rfl
  have hcomma := fun item hitem =>
    Term.not_isComma_of_not_isLoose (Term.isWhole_iff.mp hfirst item hitem)
  exact Term.contents_append hcomma
    (Term.content_of_negation (Term.isWhole_iff.mp hfirst) rfl)
    (Term.contents_of_content (List.forall_mem_singleton.mpr rfl)
      (Term.content_of_negation (List.forall_mem_singleton.mpr rfl) rfl))

theorem readAs_containment (path : String) (value : Json) :
    ReadAs (Condition.containment path value) fun _ server row =>
      Expression.holdsAlong server row path value := by
  obtain ⟨root, names, hsplit⟩ := List.exists_cons_of_ne_nil (Text.split_ne_nil '.' path)
  let literal := "\x7b" ++ String.intercalate "," names ++ "\x7d"
  intro number
  let found : Term := .operation "#>" (.column root) (.literal literal)
  let test : Term := .operation "@>" found (.cast (.parameter number) "JSONB")
  refine ⟨[.lexeme (.word "COALESCE"), .group [(test, none), (.constant false, none)]],
    .coalesce test (.constant false), ?_, rfl, rfl, ?_⟩
  · have hcast : Groups [.parameter (toString number), .word "AS", .word "JSONB"] _ :=
      .flat (by simp)
    have hbefore : Groups [.identifier root, .operator "#>", .literal literal, .operator "@>",
        .word "CAST"] _ := .flat (by simp)
    have hbehind : Groups [.mark ',', .word "FALSE"] _ := .flat (by simp)
    have hinner := (hbefore.append (hcast.nested (Term.contents_cast rfl
      (Term.negation_parameter number)))).append hbehind
    have hwhole := (hinner.nested (contents_containment root literal number)).cons
      (t := .word "COALESCE") nofun nofun
    rw [Condition.lexemes_containment hsplit]
    exact hwhole
  · rintro α server row before after rfl
    have hvalue := Term.value_parameter server row before after (.string value.compact, none)
    have hgiven : (Condition.containment path value).parameters =
        [(.string value.compact, none)] := by
      rw [Condition.containment_eq hsplit]
      rfl
    let along := server.operation "#>" (row root) (some (server.literal literal))
    have htest : test.truth server row (before ++ [(.string value.compact, none)] ++ after) =
        server.compare "@>" along
          ((server.bind (.string value.compact) none).bind (server.cast "JSONB")) :=
      congrArg (fun v : Option α => server.compare "@>" along (v.bind (server.cast "JSONB")))
        hvalue
    simp only [Expression.holdsAlong, hsplit, List.headD_cons, List.tail_cons]
    rw [hgiven, ← htest]
    exact server.truth_or_false _

theorem ReadAs.not {s : Statement} {meaning : Meaning} (h : ReadAs s meaning) :
    ReadAs (.word "NOT " :: s) fun α server row => (meaning α server row).negation := by
  have hword : Lexeme.ofText "NOT " = some [.word "NOT"] := by decide
  intro number
  obtain ⟨items, e, hgroups, hwhole, he, hmeaning⟩ := h number
  refine ⟨.lexeme (.word "NOT") :: items, .not e, ?_, ?_, ?_, ?_⟩
  · rw [lexemes_word hword]
    exact hgroups.cons nofun nofun
  · exact hwhole
  · exact congrArg (Option.map Term.not) he
  · intro α server row before after hnumber
    refine (server.truth_ofTruth _).trans ?_
    exact congrArg Truth.negation (hmeaning α server row before after hnumber)

/-! ## Groups -/

/-- What a word between parts makes of them: the rank of a part, and the expression and the truth
of all of them. -/
structure IsConnective (w : String) (level : List Item → Option Term) (make : List Term → Term)
    (together : List Truth → Truth) : Prop where
  divides : w ∈ ["AND", "OR", "AS"]
  part : ∀ items e, isWhole items = true → negation items = some e → level items = some e
  whole : ∀ items es, (∀ item ∈ items, item.isLoose = true → item.isWord w = true) →
    (items.splitOnP (Item.isWord w)).mapM level = some es →
      Term.contents items = some [(Term.joined make es, none)]
  truth : ∀ (α : Type) (server : Server α) row given es,
    (Term.joined make es).truth server row given =
      together ((Term.values server row given es).map server.truth)

theorem isConnective_and : IsConnective "AND" negation .and Truth.all where
  divides := by decide
  part _ _ _ he := he
  whole items es hloose hes := by
    have hconjunction : Term.conjunction items = some (Term.joined .and es) := by
      rw [Term.conjunction, hes]
      rfl
    have hor := fun item hitem =>
      (Term.not_divided (hloose item hitem)).1 "OR" (by decide) (by decide)
    exact Term.contents_of_disjunction (by decide) hloose
      (Term.disjunction_of_conjunction hor hconjunction)
  truth α server row given es := by
    cases es with
    | nil => exact server.truth_ofTruth _
    | cons e es =>
        cases es with
        | nil => exact (Truth.all_singleton _).symm
        | cons => exact server.truth_ofTruth _

theorem isConnective_or : IsConnective "OR" Term.conjunction .or Truth.any where
  divides := by decide
  part _ _ hwhole he := Term.conjunction_of_negation (Term.isWhole_iff.mp hwhole) he
  whole items es hloose hes := by
    have hdisjunction : Term.disjunction items = some (Term.joined .or es) := by
      rw [Term.disjunction, hes]
      rfl
    exact Term.contents_of_disjunction (by decide) hloose hdisjunction
  truth α server row given es := by
    cases es with
    | nil => exact server.truth_ofTruth _
    | cons e es =>
        cases es with
        | nil => exact (Truth.any_singleton _).symm
        | cons => exact server.truth_ofTruth _

/-- The statement is understood as parts with a word between any two, and as what each of them
means to say. Nothing but the word divides it. -/
def ReadAsParts (w : String) (level : List Item → Option Term) (s : Statement)
    (meanings : ∀ α : Type, Server α → (String → Option α) → List Truth) : Prop :=
  ∀ number, ∃ items es, Groups (lexemes number s) items ∧
    (items.splitOnP (Item.isWord w)).mapM level = some es ∧
    (∀ item ∈ items, item.isLoose = true → item.isWord w = true) ∧
    ∀ α (server : Server α) row before after, before.length + 1 = number →
      (Term.values server row (before ++ parameters s ++ after) es).map server.truth =
        meanings α server row

section Parts

variable {w separator : String} {level : List Item → Option Term} {make : List Term → Term}
  {together : List Truth → Truth} {s t : Statement} {meaning : Meaning}
  {meanings : ∀ α : Type, Server α → (String → Option α) → List Truth}

theorem ReadAs.part (hconn : IsConnective w level make together) (h : ReadAs s meaning) :
    ReadAsParts w level s fun α server row => [meaning α server row] := by
  intro number
  obtain ⟨items, e, hgroups, hwhole, he, hmeaning⟩ := h number
  have hplain := Term.isWhole_iff.mp hwhole
  refine ⟨items, [e], hgroups, ?_, ?_, ?_⟩
  · have hpieces : items.splitOnP (Item.isWord w) = [items] :=
      List.splitOnP_eq_singleton fun item hitem =>
        Term.not_isWord_of_not_isLoose hconn.divides (hplain item hitem)
    rw [hpieces, List.mapM_cons, hconn.part items e hwhole he]
    rfl
  · intro item hitem hloose
    rw [hplain item hitem] at hloose
    cases hloose
  · intro α server row before after hnumber
    exact congrArg (fun t => [t]) (hmeaning α server row before after hnumber)

/-- A part, the word and the other parts. -/
theorem ReadAs.parts (hword : Lexeme.ofText separator = some [.word w])
    (hconn : IsConnective w level make together) (h : ReadAs s meaning)
    (h' : ReadAsParts w level t meanings) :
    ReadAsParts w level (s ++ .word separator :: t)
      fun α server row => meaning α server row :: meanings α server row := by
  intro number
  obtain ⟨items, e, hgroups, hwhole, he, hmeaning⟩ := h number
  obtain ⟨more, es, hgroups', hes, hloose', hmeaning'⟩ := h' (number + (parameters s).length)
  have hplain := Term.isWhole_iff.mp hwhole
  refine ⟨items ++ .lexeme (.word w) :: more, e :: es, ?_, ?_, ?_, ?_⟩
  · rw [lexemes_append, lexemes_word hword]
    exact hgroups.append (hgroups'.cons nofun nofun)
  · have hpieces : (items ++ .lexeme (.word w) :: more).splitOnP (Item.isWord w) =
        items :: more.splitOnP (Item.isWord w) :=
      List.splitOnP_append_cons_of_forall_mem (fun item hitem =>
        Term.not_isWord_of_not_isLoose hconn.divides (hplain item hitem)) (.lexeme (.word w))
        (beq_self_eq_true (some w)) more
    rw [hpieces, List.mapM_cons, hconn.part items e hwhole he, hes]
    rfl
  · intro item hitem hloose
    rcases List.mem_append.mp hitem with hitem | hitem
    · rw [hplain item hitem] at hloose
      cases hloose
    · rcases List.mem_cons.mp hitem with rfl | hitem
      · exact beq_self_eq_true (some w)
      · exact hloose' item hitem hloose
  · -- To each part the parameters of the others are ones that stand before or behind its own.
    intro α server row before after hnumber
    have hfirst := hmeaning α server row before (parameters t ++ after) hnumber
    have hothers := hmeaning' α server row (before ++ parameters s) after
      (by rw [List.length_append]; omega)
    rw [List.append_assoc] at hothers
    rw [parameters_append, parameters_word, ← List.append_assoc before,
      List.append_assoc (before ++ _)]
    exact congrArg₂ List.cons hfirst hothers

theorem readAsParts_separate (hword : Lexeme.ofText separator = some [.word w])
    (hconn : IsConnective w level make together) {parts : List Expression} (hne : parts ≠ [])
    (hparts : ∀ part ∈ parts, ReadAs part.words fun _ server row => part.holds server row) :
    ReadAsParts w level (separate separator (Expression.wordsOfAll parts))
      fun _ server row => Expression.holdsEach server row parts := by
  induction parts with
  | nil => exact absurd rfl hne
  | cons part parts ih =>
      obtain ⟨hpart, hrest⟩ := List.forall_mem_cons.mp hparts
      cases parts with
      | nil => exact hpart.part hconn
      | cons next parts => exact hpart.parts hword hconn (ih (List.cons_ne_nil next parts) hrest)

/-- In parentheses, parts are one item. -/
theorem ReadAsParts.grouped (hconn : IsConnective w level make together)
    (h : ReadAsParts w level s meanings) :
    ReadAs (.word "(" :: s ++ [.word ")"])
      fun α server row => together (meanings α server row) := by
  have hopen : Lexeme.ofText "(" = some [.mark '('] := by decide
  have hclose : Lexeme.ofText ")" = some [.mark ')'] := by decide
  intro number
  obtain ⟨items, es, hgroups, hes, hloose, hmeaning⟩ := h number
  refine ⟨[.group [(Term.joined make es, none)]], Term.joined make es, ?_, rfl, rfl, ?_⟩
  · rw [List.cons_append, lexemes_word hopen, lexemes_append, lexemes_word hclose]
    exact hgroups.nested (hconn.whole items es hloose hes)
  · intro α server row before after hnumber
    have hgiven : (.word "(" :: s ++ [.word ")"] : Statement).parameters = parameters s := by
      simp
    rw [hgiven, hconn.truth, hmeaning α server row before after hnumber]

end Parts

end Statement

/-! ## Conditions -/

namespace Expression

/-- An expression that has words: groups and lists are not empty, and columns are compared by
operators that compare. -/
inductive Sound : Expression → Prop
  | constant (b : Bool) : Sound (.constant b)
  | isNull (column : String) : Sound (.isNull column)
  | isNotNull (column : String) : Sound (.isNotNull column)
  | compared {op : Operator} (hop : op ∈ [.eq, .gt, .gte, .lt, .lte]) (column : String)
      (value : Json) : Sound (.compared column op value)
  | distinct (column : String) (value : Json) : Sound (.distinct column value)
  | among {values : List Json} (hne : values ≠ []) (column : String) : Sound (.among column values)
  | notAmong {values : List Json} (hne : values ≠ []) (column : String) :
      Sound (.notAmong column values)
  | matching (column : String) (pattern : Json) : Sound (.matching column pattern)
  | containing (path : String) (value : Json) : Sound (.containing path value)
  | not {e : Expression} (h : Sound e) : Sound (.not e)
  | and {parts : List Expression} (hne : parts ≠ []) (h : ∀ e ∈ parts, Sound e) :
      Sound (.and parts)
  | or {parts : List Expression} (hne : parts ≠ []) (h : ∀ e ∈ parts, Sound e) : Sound (.or parts)

open Statement (ReadAs)

theorem readAs_compared {op : Operator} (hop : op ∈ [.eq, .gt, .gte, .lt, .lte]) (column : String)
    (value : Json) :
    ReadAs (Condition.comparison column op.symbol value) fun _ server row =>
      server.compare op.symbol (row column) (server.bind value (some column)) := by
  refine Statement.readAs_comparison ?_ ?_ column value
  · revert op
    decide
  · revert op
    decide

/-- The words of an expression are understood as it is meant. -/
theorem readAs_words {e : Expression} (h : e.Sound) :
    ReadAs e.words fun _ server row => e.holds server row := by
  induction h with
  | constant b => exact Statement.readAs_constant b
  | isNull column => exact Statement.readAs_isNull column
  | isNotNull column => exact Statement.readAs_isNotNull column
  | compared hop column value => exact readAs_compared hop column value
  | distinct column value => exact Statement.readAs_distinct column value
  | among hne column => exact Statement.readAs_among column hne
  | notAmong hne column => exact Statement.readAs_notAmong column hne
  | matching column pattern => exact Statement.readAs_matching column pattern
  | containing path value => exact Statement.readAs_containment path value
  | not _ ih => exact ih.not
  | and hne _ ih =>
      have hword : Lexeme.ofText " AND " = some [.word "AND"] := by decide
      exact (Statement.readAsParts_separate hword Statement.isConnective_and hne ih).grouped
        Statement.isConnective_and
  | or hne _ ih =>
      have hword : Lexeme.ofText " OR " = some [.word "OR"] := by decide
      exact (Statement.readAsParts_separate hword Statement.isConnective_or hne ih).grouped
        Statement.isConnective_or

end Expression

end Grove.Sql
