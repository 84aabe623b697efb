import Grove.Criteria.Query

/-!
# The grammar of queries

What a query may be, said as relations between tokens and what they stand for, without a
word about how it is read:

    expr        or-chain of and-chains of units
    unit        ( expr )  |  comparison
    comparison  field sign value  |  field [not] in ( value, .. )
                field like text   |  field between value and value

A chain of one is its only operand, and a longer chain is one node with the operands in
their order. The relations carry how deep parentheses may nest (`IsUnit`), because that is
part of what is allowed; the parentheses of a list do not count. No relation forbids that
tokens stand for two things. That they never do is a theorem about the parser.
-/

namespace Grove

def Comparison.signs : List Comparison := [.eq, .ne, .gt, .gte, .lt, .lte]

namespace Query

/-- A letter or an underscore, and then letters, digits, underscores and points. -/
def IsIdentifier (s : String) : Prop :=
  ∃ c cs, s.toList = c :: cs ∧ (c.isAlpha = true ∨ c = '_') ∧
    ∀ d ∈ cs, d.isAlphanum = true ∨ d = '_' ∨ d = '.'

/-- The words that are neither fields nor values, in any case. -/
def reserved : List String := ["and", "or", "not", "in", "like", "between"]

def IsField (s : String) : Prop := IsIdentifier s ∧ Text.lower s ∉ reserved

instance (s : String) : Decidable (IsIdentifier s) :=
  match h : s.toList with
  | [] => isFalse fun ⟨_, _, hs, _⟩ => List.cons_ne_nil _ _ (hs.symm.trans h)
  | c :: cs =>
    decidable_of_iff
      ((c.isAlpha = true ∨ c = '_') ∧ cs.all (fun d => d.isAlphanum || d = '_' || d = '.') = true)
      ⟨fun hcs => ⟨c, cs, h, hcs.1, by simpa [or_assoc] using hcs.2⟩,
        fun ⟨_, _, hs, hc, hcs⟩ => by
          cases h.symm.trans hs
          exact ⟨hc, by simpa [or_assoc] using hcs⟩⟩

instance (s : String) : Decidable (IsField s) :=
  inferInstanceAs (Decidable (IsIdentifier s ∧ Text.lower s ∉ reserved))

/-- A word that is the keyword in some case. -/
inductive IsKeyword (keyword : String) : Token → Prop
  | word {s : String} (h : Text.lower s = keyword) : IsKeyword keyword (.word s)

inductive IsConstant : Token → Json → Prop
  | text (s : String) : IsConstant (.text s) (.string s)
  | number (n : Number) : IsConstant (.number n) (.number n)
  | true {s : String} (h : Text.lower s = "true") : IsConstant (.word s) (.bool true)
  | false {s : String} (h : Text.lower s = "false") : IsConstant (.word s) (.bool false)
  | null {s : String} (h : Text.lower s = "null") : IsConstant (.word s) .null
  | bareword {s : String} (h : IsField s) (hplain : Text.lower s ∉ ["true", "false", "null"]) :
      IsConstant (.word s) (.string s)

inductive IsList : List Token → List Json → Prop
  | one {t : Token} {v : Json} (h : IsConstant t v) : IsList [t] [v]
  | more {t : Token} {v : Json} {ts : List Token} {vs : List Json} (h : IsConstant t v)
      (hrest : IsList ts vs) : IsList (t :: .comma :: ts) (v :: vs)

inductive IsComparison : List Token → Criteria → Prop
  | sign {f : String} {o : Comparison} {t : Token} {v : Json} (hf : IsField f)
      (ho : o ∈ Comparison.signs) (hv : IsConstant t v) :
      IsComparison [.word f, .op o, t] (.compare o f v)
  | isIn {f : String} {k : Token} {ts : List Token} {vs : List Json} (hf : IsField f)
      (hk : IsKeyword "in" k) (hvs : IsList ts vs) :
      IsComparison (.word f :: k :: .leftParen :: (ts ++ [.rightParen]))
        (.compare .isIn f (.array vs))
  | notIn {f : String} {n k : Token} {ts : List Token} {vs : List Json} (hf : IsField f)
      (hn : IsKeyword "not" n) (hk : IsKeyword "in" k) (hvs : IsList ts vs) :
      IsComparison (.word f :: n :: k :: .leftParen :: (ts ++ [.rightParen]))
        (.compare .notIn f (.array vs))
  | like {f : String} {k : Token} (hf : IsField f) (hk : IsKeyword "like" k) (s : String) :
      IsComparison [.word f, k, .text s] (.compare .like f (.string s))
  | between {f : String} {k t u : Token} {v w : Json} (hf : IsField f)
      (hk : IsKeyword "between" k) (hv : IsConstant t v) (hw : IsConstant u w) :
      IsComparison [.word f, k, t, .and, u] (.between f v w)

/-- Items with a separator in between, at least one. -/
inductive Chain (item : List Token → Criteria → Prop) (separator : Token) :
    List Token → List Criteria → Prop
  | one {ts : List Token} {c : Criteria} (h : item ts c) : Chain item separator ts [c]
  | more {ts rest : List Token} {c : Criteria} {cs : List Criteria} (h : item ts c)
      (hrest : Chain item separator rest cs) :
      Chain item separator (ts ++ separator :: rest) (c :: cs)

/-- What the operands of a chain are together. -/
inductive Joined (op : Connective) : List Criteria → Criteria → Prop
  | one (c : Criteria) : Joined op [c] c
  | many (c d : Criteria) (cs : List Criteria) :
      Joined op (c :: d :: cs) (.logical op (c :: d :: cs))

def IsConjunction (item : List Token → Criteria → Prop) (ts : List Token) (c : Criteria) : Prop :=
  ∃ cs, Chain item .and ts cs ∧ Joined .and cs c

def IsDisjunction (item : List Token → Criteria → Prop) (ts : List Token) (c : Criteria) : Prop :=
  ∃ cs, Chain (IsConjunction item) .or ts cs ∧ Joined .or cs c

/-- A comparison, or a query in parentheses. The number is how deep parentheses nest in it
at most. -/
def IsUnit : Nat → List Token → Criteria → Prop
  | 0, ts, c => IsComparison ts c
  | depth + 1, ts, c =>
    IsComparison ts c ∨
      ∃ inner, ts = .leftParen :: (inner ++ [.rightParen]) ∧ IsDisjunction (IsUnit depth) inner c

/-- The tokens are a query, with parentheses nested at most so deep, that stands for the
criteria. -/
def Derives (depth : Nat) : List Token → Criteria → Prop := IsDisjunction (IsUnit depth)

/-- What the tokens of a text can be: operators are signs and words are identifiers, none of
them a connective. -/
def Lexical : Token → Prop
  | .word s => IsIdentifier s ∧ Text.lower s ≠ "and" ∧ Text.lower s ≠ "or"
  | .op o => o ∈ Comparison.signs
  | _ => True

theorem IsUnit.comparison {depth : Nat} {ts : List Token} {c : Criteria} (h : IsComparison ts c) :
    IsUnit depth ts c := by
  cases depth with
  | zero => exact h
  | succ => exact .inl h

theorem IsConjunction.one {item : List Token → Criteria → Prop} {ts : List Token} {c : Criteria}
    (h : item ts c) : IsConjunction item ts c :=
  ⟨[c], .one h, .one c⟩

/-! ## Depth -/

theorem Chain.mono {item item' : List Token → Criteria → Prop} {separator : Token}
    {ts : List Token} {cs : List Criteria} (h : Chain item separator ts cs)
    (hitem : ∀ ts c, item ts c → item' ts c) : Chain item' separator ts cs := by
  induction h with
  | one h => exact .one (hitem _ _ h)
  | more h _ ih => exact .more (hitem _ _ h) ih

theorem IsDisjunction.mono {item item' : List Token → Criteria → Prop} {ts : List Token}
    {c : Criteria} (h : IsDisjunction item ts c) (hitem : ∀ ts c, item ts c → item' ts c) :
    IsDisjunction item' ts c := by
  obtain ⟨cs, hchain, hjoined⟩ := h
  exact ⟨cs, hchain.mono fun _ _ ⟨ds, hds, hd⟩ => ⟨ds, hds.mono hitem, hd⟩, hjoined⟩

theorem IsUnit.succ {depth : Nat} {ts : List Token} {c : Criteria} (h : IsUnit depth ts c) :
    IsUnit (depth + 1) ts c := by
  induction depth generalizing ts c with
  | zero => exact .inl h
  | succ depth ih =>
      rcases h with h | ⟨inner, rfl, h⟩
      · exact .inl h
      · exact .inr ⟨inner, rfl, h.mono fun _ _ => ih⟩

theorem IsUnit.mono {depth depth' : Nat} (hle : depth ≤ depth') {ts : List Token} {c : Criteria}
    (h : IsUnit depth ts c) : IsUnit depth' ts c := by
  induction hle with
  | refl => exact h
  | step _ ih => exact ih.succ

theorem Derives.mono {depth depth' : Nat} (hle : depth ≤ depth') {ts : List Token} {c : Criteria}
    (h : Derives depth ts c) : Derives depth' ts c :=
  IsDisjunction.mono h fun _ _ => IsUnit.mono hle

end Query

end Grove
