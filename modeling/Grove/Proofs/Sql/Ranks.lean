import Grove.Proofs.Sql.Syntax
import Grove.Proofs.Sql.Wording

/-!
# What divides a row of items

A row of items is divided by its loosest operator, so to know what it is one has to know that
nothing looser stands in it. `Item.isLoose` are the items that divide before any `NOT` does, and a
row without them can be a part of anything that is written with commas, `AND`, `OR` or `AS`. What
stands in parentheses is one item and divides nothing, whatever is in it: `Groups` says which items
a text has wherever it stands.
-/

namespace Grove.Sql

namespace Term

variable {ts us : List Lexeme} {item : Item} {items more : List Item} {e : Term} {es : List Term}

/-! ## Items -/

variable {outer : List (List Item)} {before : List Item}

theorem scan_open : scan outer before (.mark '(' :: ts) = scan (before :: outer) [] ts := by
  rw [scan.eq_def]
  exact if_pos rfl

theorem scan_close {cs : List (Term × Option String)} (h : contents items = some cs) :
    scan (before :: outer) items (.mark ')' :: ts) = scan outer (before ++ [.group cs]) ts := by
  rw [scan.eq_def]
  simp [h]

theorem scan_plain {t : Lexeme} (hopen : t ≠ .mark '(') (hclose : t ≠ .mark ')') :
    scan outer before (t :: ts) = scan outer (before ++ [.lexeme t]) ts := by
  rw [scan.eq_def]
  simp [hopen, hclose]

/-- The lexemes are the items, wherever they stand. -/
def Groups (ts : List Lexeme) (items : List Item) : Prop :=
  ∀ outer before rest, scan outer before (ts ++ rest) = scan outer (before ++ items) rest

theorem Groups.nil : Groups [] [] := fun outer before rest => by
  rw [List.append_nil, List.nil_append]

theorem Groups.append (h : Groups ts items) (h' : Groups us more) :
    Groups (ts ++ us) (items ++ more) := fun outer before rest => by
  rw [List.append_assoc, h, h', List.append_assoc]

theorem Groups.cons {t : Lexeme} (hopen : t ≠ .mark '(') (hclose : t ≠ .mark ')')
    (h : Groups ts items) : Groups (t :: ts) (.lexeme t :: items) := by
  intro outer before rest
  rw [List.cons_append, scan_plain hopen hclose, h, List.append_assoc]
  rfl

theorem Groups.flat (h : ∀ t ∈ ts, t ≠ .mark '(' ∧ t ≠ .mark ')') :
    Groups ts (ts.map .lexeme) := by
  induction ts with
  | nil => exact .nil
  | cons t ts ih =>
      obtain ⟨ht, hts⟩ := List.forall_mem_cons.mp h
      exact .cons ht.1 ht.2 (ih hts)

/-- What stands in parentheses is one item. -/
theorem Groups.nested {cs : List (Term × Option String)} (h : Groups ts items)
    (hcontents : contents items = some cs) :
    Groups (.mark '(' :: ts ++ [.mark ')']) [.group cs] := by
  intro outer before rest
  rw [List.cons_append, List.cons_append, List.append_assoc, scan_open, h,
    List.singleton_append, List.nil_append, scan_close hcontents]

/-! ## Ranks -/

theorem cut_eq_none {β : Type} {kind : Item → Option β} (h : ∀ item ∈ items, kind item = none) :
    cut kind items = none := by
  induction items with
  | nil => rfl
  | cons item items ih =>
      obtain ⟨hitem, hitems⟩ := List.forall_mem_cons.mp h
      rw [cut, hitem, ih hitems]
      rfl

/-- An item that divides a row of items before any `NOT` does. -/
def Item.isLoose (item : Item) : Bool :=
  item.isWord "AND" || item.isWord "OR" || item.isWord "AS" || item.isComma

def isWhole (items : List Item) : Bool := items.all fun item => !item.isLoose

theorem isWhole_iff : isWhole items = true ↔ ∀ item ∈ items, item.isLoose = false := by
  simp [isWhole]

theorem not_isWord_of_not_isLoose {w : String} (hw : w ∈ ["AND", "OR", "AS"])
    (h : item.isLoose = false) : item.isWord w = false := by
  simp only [Item.isLoose, Bool.or_eq_false_iff] at h
  simp only [List.mem_cons, List.not_mem_nil, or_false] at hw
  rcases hw with rfl | rfl | rfl
  · exact h.1.1.1
  · exact h.1.1.2
  · exact h.1.2

theorem not_isComma_of_not_isLoose (h : item.isLoose = false) : item.isComma = false := by
  rw [Item.isLoose, Bool.or_eq_false_iff] at h
  exact h.2

/-- Where a word is all that divides a row of items, no other one and no comma does. -/
theorem not_divided {w : String} (h : item.isLoose = true → item.isWord w = true) :
    (∀ w' ∈ ["AND", "OR", "AS"], w' ≠ w → item.isWord w' = false) ∧ item.isComma = false := by
  cases hloose : item.isLoose with
  | false =>
      exact ⟨fun w' hw' _ => not_isWord_of_not_isLoose hw' hloose,
        not_isComma_of_not_isLoose hloose⟩
  | true =>
      have hword : item.word? = some w := eq_of_beq (h hloose)
      refine ⟨fun w' _ hne => ?_, ?_⟩
      · rw [Item.isWord, hword, beq_eq_false_iff_ne]
        exact fun heq => hne (Option.some.inj heq).symm
      · cases item with
        | group => rfl
        | lexeme t => cases t <;> first | rfl | cases hword

/-- Nothing divides a part of a conjunction. -/
theorem conjunction_of_negation (hitems : ∀ item ∈ items, item.isLoose = false)
    (h : negation items = some e) : conjunction items = some e := by
  have hpieces : items.splitOnP (Item.isWord "AND") = [items] :=
    List.splitOnP_eq_singleton fun item hitem =>
      not_isWord_of_not_isLoose (by decide) (hitems item hitem)
  rw [conjunction, hpieces, List.mapM_cons, h]
  rfl

theorem disjunction_of_conjunction (hitems : ∀ item ∈ items, item.isWord "OR" = false)
    (h : conjunction items = some e) : disjunction items = some e := by
  rw [disjunction, List.splitOnP_eq_singleton hitems, List.mapM_cons, h]
  rfl

theorem disjunction_of_negation (hitems : ∀ item ∈ items, item.isLoose = false)
    (h : negation items = some e) : disjunction items = some e :=
  disjunction_of_conjunction (fun item hitem =>
    not_isWord_of_not_isLoose (by decide) (hitems item hitem)) (conjunction_of_negation hitems h)

/-- A whole text of items that nothing divides. -/
theorem ofLexemes_of_groups (hgroups : Groups ts items) (hwhole : isWhole items = true)
    (h : negation items = some e) : ofLexemes ts = some e := by
  have hscan := hgroups [] [] []
  rw [List.append_nil, List.nil_append] at hscan
  rw [ofLexemes, hscan]
  exact disjunction_of_negation (isWhole_iff.mp hwhole) h

theorem filter_word {w : String} (h : item.isWord w = false) :
    item.word?.filter (· = w) = none := by
  rw [Item.isWord, beq_eq_false_iff_ne] at h
  rw [Option.filter_eq_none_iff]
  rintro w' hw' hsame
  exact h (hw'.trans (congrArg some (of_decide_eq_true hsame)))

theorem content_of_disjunction (hitems : ∀ item ∈ items, item.isWord "AS" = false)
    (h : disjunction items = some e) : content items = some (e, none) := by
  have htype : cut (fun item => item.word?.filter (· = "AS")) items = none :=
    cut_eq_none fun item hitem => filter_word (hitems item hitem)
  rw [content, htype]
  simp only [h]
  rfl

variable {c : Term × Option String} {cs : List (Term × Option String)}

theorem contents_of_content (hitems : ∀ item ∈ items, item.isComma = false)
    (h : content items = some c) : contents items = some [c] := by
  rw [contents, List.splitOnP_eq_singleton hitems, List.mapM_cons, h]
  rfl

/-- A disjunction that only one of the words between parts divides. -/
theorem contents_of_disjunction {w : String} (hw : w ≠ "AS")
    (hloose : ∀ item ∈ items, item.isLoose = true → item.isWord w = true)
    (h : disjunction items = some e) : contents items = some [(e, none)] := by
  have hdivided := fun item hitem => not_divided (hloose item hitem)
  exact contents_of_content (fun item hitem => (hdivided item hitem).2)
    (content_of_disjunction (fun item hitem =>
      (hdivided item hitem).1 "AS" (by decide) hw.symm) h)

theorem contents_append (hitems : ∀ item ∈ items, item.isComma = false)
    (h : content items = some c) (hmore : contents more = some cs) :
    contents (items ++ .lexeme (.mark ',') :: more) = some (c :: cs) := by
  have hpieces : (items ++ .lexeme (.mark ',') :: more).splitOnP Item.isComma =
      items :: more.splitOnP Item.isComma :=
    List.splitOnP_append_cons_of_forall_mem hitems _ rfl more
  rw [contents] at hmore
  rw [contents, hpieces, List.mapM_cons, h, hmore]
  rfl

theorem content_of_negation (hitems : ∀ item ∈ items, item.isLoose = false)
    (h : negation items = some e) : content items = some (e, none) := by
  refine content_of_disjunction (fun item hitem => ?_) (disjunction_of_negation hitems h)
  exact not_isWord_of_not_isLoose (by decide) (hitems item hitem)

/-! ## Parameters -/

/-- The expressions of parameters with successive numbers. -/
def parametersFrom (number count : Nat) : List Term := (List.range' number count).map .parameter

theorem operand_parameter (number : Nat) :
    operand [.lexeme (.parameter (toString number))] = some (.parameter number) := by
  rw [operand, Text.readDigits?_toString]
  rfl

theorem negation_parameter (number : Nat) :
    negation [.lexeme (.parameter (toString number))] = some (.parameter number) :=
  Option.map_id_apply.trans (operand_parameter number)

theorem negation_compared {symbol : String} (h : symbol ∈ Lexeme.comparisons) (column : String)
    (number : Nat) :
    negation [.lexeme (.identifier column), .lexeme (.operator symbol),
      .lexeme (.parameter (toString number))] =
        some (.operation symbol (.column column) (.parameter number)) := by
  have hright : membership [.lexeme (.parameter (toString number))] = some (.parameter number) :=
    negation_parameter number
  have hsymbol : Option.filter Lexeme.comparisons.contains (some symbol) = some symbol := by
    rw [Option.filter, List.contains_iff_mem.mpr h]
    rfl
  have hcut : cut (fun item => item.symbol?.filter Lexeme.comparisons.contains)
      [.lexeme (.identifier column), .lexeme (.operator symbol),
        .lexeme (.parameter (toString number))] =
      some ([.lexeme (.identifier column)], symbol, [.lexeme (.parameter (toString number))]) := by
    rw [cut, cut]
    simp only [Item.symbol?, hsymbol]
    rfl
  have hcomparison : negation [.lexeme (.identifier column), .lexeme (.operator symbol),
      .lexeme (.parameter (toString number))] =
      comparison [.lexeme (.identifier column), .lexeme (.operator symbol),
        .lexeme (.parameter (toString number))] := rfl
  rw [hcomparison, comparison, hcut]
  simp only [hright]
  rfl

/-- An operand with a type behind it is one to be cast. -/
theorem contents_cast (hitem : item.isLoose = false) (h : negation [item] = some e)
    {type : String} :
    contents [item, .lexeme (.word "AS"), .lexeme (.word type)] = some [(e, some type)] := by
  have hword := not_isWord_of_not_isLoose (by decide : "AS" ∈ ["AND", "OR", "AS"]) hitem
  have hcut : cut (fun item => item.word?.filter (· = "AS"))
      [item, .lexeme (.word "AS"), .lexeme (.word type)] =
      some ([item], "AS", [.lexeme (.word type)]) := by
    rw [cut, filter_word hword]
    rfl
  have hdisjunction : disjunction [item] = some e :=
    disjunction_of_negation (List.forall_mem_singleton.mpr hitem) h
  refine contents_of_content (fun i hi => ?_) ?_
  · rcases List.mem_cons.mp hi with rfl | hi
    · exact not_isComma_of_not_isLoose hitem
    · rcases List.mem_cons.mp hi with rfl | hi
      · rfl
      · cases List.mem_singleton.mp hi
        rfl
  · rw [content, hcut]
    simp only [hdisjunction]
    rfl

theorem listed_untyped (es : List Term) : listed (es.map (·, none)) = some es := by
  induction es with
  | nil => rfl
  | cons e es ih =>
      rw [listed] at ih
      rw [listed, List.map_cons, List.mapM_cons, ih]
      rfl

/-- A list of parameters stands for their expressions. -/
theorem contents_numberList {count : Nat} (hcount : count ≠ 0) (number : Nat) :
    contents ((Statement.numberList number count).map .lexeme) =
      some ((parametersFrom number count).map (·, none)) := by
  have hcontent : ∀ number, content [.lexeme (.parameter (toString number))] =
      some (.parameter number, none) := fun number =>
    content_of_negation (List.forall_mem_singleton.mpr rfl) (negation_parameter number)
  induction count generalizing number with
  | zero => exact absurd rfl hcount
  | succ count ih =>
      cases count with
      | zero => exact contents_of_content (List.forall_mem_singleton.mpr rfl) (hcontent number)
      | succ count =>
          have hrest := ih (Nat.succ_ne_zero count) (number + 1)
          exact contents_append (List.forall_mem_singleton.mpr rfl) (hcontent number) hrest

section Values

variable {α : Type} (server : Server α) (row : String → Option α)
  (before : List (Json × Option String)) (given after : List (Json × Option String))

theorem value_parameter (p : Json × Option String) :
    (Term.parameter (before.length + 1)).value server row (before ++ [p] ++ after) =
      server.bind p.1 p.2 := by
  simp [value]

theorem values_parametersFrom :
    values server row (before ++ given ++ after) (parametersFrom (before.length + 1) given.length) =
      given.map fun p => server.bind p.1 p.2 := by
  induction given generalizing before with
  | nil => rfl
  | cons p given ih =>
      have hfirst := value_parameter server row before (given ++ after) p
      have hrest := ih (before ++ [p])
      rw [List.length_append, List.length_singleton, List.append_assoc] at hrest
      have hgiven : before ++ p :: given ++ after = before ++ [p] ++ (given ++ after) := by simp
      rw [hgiven, List.map_cons, ← hfirst, ← hrest]
      rfl

end Values

end Term

end Grove.Sql
