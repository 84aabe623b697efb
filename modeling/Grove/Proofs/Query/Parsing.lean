import Grove.Proofs.Criteria.Height
import Grove.Proofs.Query.Lexing
import Grove.Failure

/-!
# The parser accepts the grammar

Each parser is held against its relation of the grammar in both directions. What it reads
off the front of the tokens is an item of the relation (`Reads`), and an item before
whatever may follow it is read whole and no further (`Takes`). Two directions are needed
because the grammar does not say which derivation to choose: the first one makes every
answer a derivation, the second makes every derivation the answer, and so no tokens stand
for two queries.

What may follow is where the parsers differ. Nothing that follows a unit could belong to
it. A chain goes on for as long as its separator follows, so a conjunction is complete only
before something that is no `and`, and a disjunction only before something that is neither.
-/

namespace Grove.Query

open Token (scan)

variable {α : Type}

/-- What the parser reads is an item, and the tokens after it are left. -/
def Reads (parser : List Token → Except QueryError (α × List Token))
    (item : List Token → α → Prop) : Prop :=
  ∀ ts v rest, (∀ t ∈ ts, Lexical t) → parser ts = .ok (v, rest) →
    ∃ used, ts = used ++ rest ∧ item used v

/-- An item is read whole and no further before anything that may follow it. -/
def Takes (parser : List Token → Except QueryError (α × List Token))
    (item : List Token → α → Prop) (mayFollow : List Token → Prop) : Prop :=
  ∀ used v rest, item used v → mayFollow rest → parser (used ++ rest) = .ok (v, rest)

/-! ## Words and values -/

theorem isKeyword_iff {s : String} :
    isKeyword s = true ↔ Text.lower s ∈ ["not", "in", "like", "between"] := by
  rw [isKeyword, keywords, List.contains_iff_mem]

/-- Of the words that scan as one, fields are those that are no keywords. -/
theorem isField_iff {s : String} (h : Lexical (.word s)) : IsField s ↔ isKeyword s = false := by
  obtain ⟨hidentifier, hand, hor⟩ := h
  rw [IsField, ← Bool.not_eq_true, isKeyword_iff]
  simp [reserved, hidentifier, hand, hor]

theorem IsField.not_keyword {s : String} (h : IsField s) : isKeyword s = false := by
  rw [← Bool.not_eq_true, isKeyword_iff]
  intro hkeyword
  exact h.2 (List.mem_cons_of_mem _ (List.mem_cons_of_mem _ hkeyword))

theorem afterKeyword?_eq_some {keyword : String} {ts rest : List Token}
    (h : afterKeyword? keyword ts = some rest) : ∃ t, ts = t :: rest ∧ IsKeyword keyword t := by
  fun_cases afterKeyword? keyword ts with
  | case1 s rest' hs =>
      rw [afterKeyword?, if_pos hs] at h
      cases h
      exact ⟨.word s, rfl, .word hs⟩
  | case2 s rest' hs => simp [afterKeyword?, hs] at h
  | case3 => simp [afterKeyword?] at h

theorem afterKeyword?_cons {keyword keyword' : String} {t : Token} (h : IsKeyword keyword' t)
    (ts : List Token) :
    afterKeyword? keyword (t :: ts) = if keyword' = keyword then some ts else none := by
  obtain ⟨rfl⟩ := h
  rfl

theorem value_reads : Reads value (fun used v => ∃ t, used = [t] ∧ IsConstant t v) := by
  intro ts v rest hts h
  unfold value at h
  split at h
  · cases h
    exact ⟨_, rfl, _, rfl, .text _⟩
  · cases h
    exact ⟨_, rfl, _, rfl, .number _⟩
  · next s rest' =>
      split at h
      · next hs => cases h; exact ⟨_, rfl, _, rfl, .true hs⟩
      · next hs => cases h; exact ⟨_, rfl, _, rfl, .false hs⟩
      · next hs => cases h; exact ⟨_, rfl, _, rfl, .null hs⟩
      · next htrue hfalse hnull =>
          split at h
          · cases h
          · next hkeyword =>
              cases h
              have hfield := (isField_iff (hts _ List.mem_cons_self)).mpr (by simpa using hkeyword)
              refine ⟨[.word s], rfl, _, rfl, .bareword hfield ?_⟩
              simp only [List.mem_cons, List.not_mem_nil, or_false, not_or]
              exact ⟨htrue, hfalse, hnull⟩
  · cases h

theorem value_cons {t : Token} {v : Json} (h : IsConstant t v) (rest : List Token) :
    value (t :: rest) = .ok (v, rest) := by
  cases h with
  | text | number => rfl
  | true hs | false hs | null hs => simp [value, hs]
  | bareword hfield hplain =>
      simp only [List.mem_cons, List.not_mem_nil, or_false, not_or] at hplain
      simp [value, hplain, hfield.not_keyword]

/-! ## Lists -/

theorem expect_eq_ok {wanted : Token} {ts rest : List Token} :
    expect wanted ts = .ok rest ↔ ts = wanted :: rest := by
  cases ts with
  | nil => simp [expect]
  | cons t ts =>
      rw [expect]
      split
      · next heq => simp [heq]
      · next hne => simp [hne]

theorem listTail_reads {fuel : Nat} {ts rest : List Token} {vs : List Json}
    (hts : ∀ t ∈ ts, Lexical t) (h : listTail fuel ts = .ok (vs, rest)) {t : Token} {v : Json}
    (hv : IsConstant t v) :
    ∃ used, ts = used ++ .rightParen :: rest ∧ IsList (t :: used) (v :: vs) := by
  induction fuel generalizing ts vs t v with
  | zero =>
      unfold listTail at h
      split at h
      · next hzero => cases hzero
      · cases h
        exact ⟨[], rfl, .one hv⟩
      · cases h
  | succ fuel ih =>
      unfold listTail at h
      split at h
      · next fuel' ts' hfuel =>
          cases hfuel
          obtain ⟨⟨w, ts''⟩, hvalue, h⟩ := bind_eq_ok.mp h
          obtain ⟨⟨ws, ts'''⟩, htail, h⟩ := bind_eq_ok.mp h
          cases h
          have hts' := (List.forall_mem_cons.mp hts).2
          obtain ⟨-, rfl, u, rfl, hw⟩ := value_reads _ _ _ hts' hvalue
          obtain ⟨used, rfl, hlist⟩ := ih (List.forall_mem_cons.mp hts').2 htail hw
          exact ⟨.comma :: u :: used, rfl, .more hv hlist⟩
      · cases h
        exact ⟨[], rfl, .one hv⟩
      · cases h

theorem list_reads :
    Reads list (fun used v => ∃ ts vs, used = .leftParen :: (ts ++ [.rightParen]) ∧
      IsList ts vs ∧ v = .array vs) := by
  intro ts v rest hts h
  obtain ⟨ts', hparen, h⟩ := bind_eq_ok.mp h
  obtain ⟨⟨w, ts''⟩, hvalue, h⟩ := bind_eq_ok.mp h
  obtain ⟨⟨ws, rest'⟩, htail, h⟩ := bind_eq_ok.mp h
  cases h
  obtain rfl := expect_eq_ok.mp hparen
  have hts' := (List.forall_mem_cons.mp hts).2
  obtain ⟨-, rfl, u, rfl, hw⟩ := value_reads _ _ _ hts' hvalue
  obtain ⟨used, rfl, hlist⟩ :=
    listTail_reads (List.forall_mem_cons.mp hts').2 htail hw
  exact ⟨.leftParen :: u :: (used ++ [.rightParen]), by simp, u :: used, _, rfl, hlist, rfl⟩

/-- A list is a constant, and then what the parser of the rest takes. The fuel is enough if
there is some for each token. -/
theorem IsList.cases_listTail {ts : List Token} {vs : List Json} (h : IsList ts vs) :
    ∃ t v ts' vs', ts = t :: ts' ∧ vs = v :: vs' ∧ IsConstant t v ∧
      ∀ fuel rest, ts'.length ≤ fuel →
        listTail fuel (ts' ++ .rightParen :: rest) = .ok (vs', rest) := by
  induction h with
  | one h => exact ⟨_, _, [], [], rfl, rfl, h, fun fuel rest _ => by cases fuel <;> rfl⟩
  | @more t v ts vs h _ ih =>
      obtain ⟨u, w, ts', vs', rfl, rfl, hw, htail⟩ := ih
      refine ⟨t, v, .comma :: u :: ts', w :: vs', rfl, rfl, h, fun fuel rest hfuel => ?_⟩
      obtain ⟨fuel, rfl⟩ : ∃ n, fuel = n + 1 := ⟨fuel - 1, by simp at hfuel; omega⟩
      have hrest := htail fuel rest (by simp at hfuel; omega)
      exact bind_eq_ok.mpr ⟨_, value_cons hw _, bind_eq_ok.mpr ⟨_, hrest, rfl⟩⟩

theorem list_takes {ts : List Token} {vs : List Json} (h : IsList ts vs) (rest : List Token) :
    list (.leftParen :: (ts ++ .rightParen :: rest)) = .ok (.array vs, rest) := by
  obtain ⟨t, v, ts', vs', rfl, rfl, hv, htail⟩ := h.cases_listTail
  have hrest := htail (ts' ++ .rightParen :: rest).length rest (by simp)
  exact bind_eq_ok.mpr ⟨_, expect_eq_ok.mpr rfl, bind_eq_ok.mpr ⟨_, value_cons hv _,
    bind_eq_ok.mpr ⟨_, hrest, rfl⟩⟩⟩

/-! ## Comparisons -/

theorem membership_reads {op : Comparison} {f : String} {ts ts' rest : List Token} {c : Criteria}
    (hts : ∀ t ∈ ts, Lexical t) (hin : afterKeyword? "in" ts = some ts')
    (h : ((list ts').map fun (vs, ts) => (Criteria.compare op f vs, ts)) = .ok (c, rest)) :
    ∃ k us vs, ts = k :: .leftParen :: (us ++ [.rightParen]) ++ rest ∧ IsKeyword "in" k ∧
      IsList us vs ∧ c = .compare op f (.array vs) := by
  obtain ⟨k, rfl, hk⟩ := afterKeyword?_eq_some hin
  obtain ⟨⟨v, rest'⟩, hlist, h⟩ := map_eq_ok.mp h
  cases h
  obtain ⟨-, rfl, us, vs, rfl, hvs, rfl⟩ :=
    list_reads _ _ _ (List.forall_mem_cons.mp hts).2 hlist
  exact ⟨k, us, vs, rfl, hk, hvs, rfl⟩

theorem negated_reads {f : String} (hf : IsField f) {n : Token} (hn : IsKeyword "not" n) :
    Reads (negated f) (fun used c => IsComparison (.word f :: n :: used) c) := by
  intro ts c rest hts h
  unfold negated at h
  split at h
  · next hin =>
      obtain ⟨k, us, vs, rfl, hk, hvs, rfl⟩ := membership_reads hts hin h
      exact ⟨_, rfl, .notIn hf hn hk hvs⟩
  · split at h <;> cases h

theorem relation_reads {f : String} (hf : IsField f) :
    Reads (relation f) (fun used c => IsComparison (.word f :: used) c) := by
  intro ts c rest hts h
  unfold relation at h
  split at h
  · next hin =>
      obtain ⟨k, us, vs, rfl, hk, hvs, rfl⟩ := membership_reads hts hin h
      exact ⟨_, rfl, .isIn hf hk hvs⟩
  split at h
  · next s ts' hlike =>
      obtain ⟨k, rfl, hk⟩ := afterKeyword?_eq_some hlike
      cases h
      exact ⟨[k, .text s], rfl, .like hf hk s⟩
  · cases h
  split at h
  · next ts' hbetween =>
      obtain ⟨k, rfl, hk⟩ := afterKeyword?_eq_some hbetween
      obtain ⟨⟨v, ts₁⟩, hlower, h⟩ := bind_eq_ok.mp h
      obtain ⟨ts₂, hand, h⟩ := bind_eq_ok.mp h
      obtain ⟨⟨w, ts₃⟩, hupper, h⟩ := bind_eq_ok.mp h
      cases h
      have hts' := (List.forall_mem_cons.mp hts).2
      obtain ⟨-, rfl, t, rfl, hv⟩ := value_reads _ _ _ hts' hlower
      obtain rfl := expect_eq_ok.mp hand
      obtain ⟨-, rfl, u, rfl, hw⟩ := value_reads _ _ _ (fun t ht => hts' t (by simp [ht])) hupper
      exact ⟨[k, t, .and, u], rfl, .between hf hk hv hw⟩
  split at h
  · next o ts' _ _ _ =>
      obtain ⟨⟨v, rest'⟩, hvalue, h⟩ := map_eq_ok.mp h
      cases h
      obtain ⟨-, rfl, t, rfl, hv⟩ := value_reads _ _ _ (List.forall_mem_cons.mp hts).2 hvalue
      exact ⟨[.op o, t], rfl, .sign hf (hts _ List.mem_cons_self) hv⟩
  · cases h

theorem comparison_reads : Reads comparison IsComparison := by
  intro ts c rest hts h
  unfold comparison at h
  split at h
  · next s ts' =>
      have hts' := (List.forall_mem_cons.mp hts).2
      split at h
      · cases h
      · next hkeyword =>
          have hf : IsField s :=
            (isField_iff (hts _ List.mem_cons_self)).mpr (by simpa using hkeyword)
          split at h
          · next ts'' hnot =>
              obtain ⟨n, rfl, hn⟩ := afterKeyword?_eq_some hnot
              obtain ⟨used, rfl, hc⟩ := negated_reads hf hn _ _ _
                (List.forall_mem_cons.mp hts').2 h
              exact ⟨.word s :: n :: used, rfl, hc⟩
          · obtain ⟨used, rfl, hc⟩ := relation_reads hf _ _ _ hts' h
            exact ⟨.word s :: used, rfl, hc⟩
  · cases h

theorem comparison_takes : Takes comparison IsComparison fun _ => True := by
  intro used c rest hc _
  cases hc with
  | sign hf _ hv =>
      simp [comparison, relation, afterKeyword?, hf.not_keyword, value_cons hv, Except.map]
  | isIn hf hk hvs =>
      simp [comparison, relation, afterKeyword?_cons hk, hf.not_keyword, list_takes hvs, Except.map]
  | notIn hf hn hk hvs =>
      simp [comparison, negated, afterKeyword?_cons hn, afterKeyword?_cons hk, hf.not_keyword,
        list_takes hvs, Except.map]
  | like hf hk s =>
      simp [comparison, relation, afterKeyword?_cons hk, hf.not_keyword]
  | between hf hk hv hw =>
      simp [comparison, relation, afterKeyword?_cons hk, hf.not_keyword, value_cons hv,
        value_cons hw, expect, bind, Except.bind]

/-! ## Chains -/

section Chain

variable {item : List Token → Except QueryError (Criteria × List Token)}
  {IsItem : List Token → Criteria → Prop}

theorem chain_reads (hitem : Reads item IsItem) (separator : Token) (fuel : Nat) :
    Reads (chain item separator fuel) (Chain IsItem separator) := by
  induction fuel with
  | zero =>
      intro ts cs rest hts h
      obtain ⟨⟨c, rest'⟩, hread, h⟩ := map_eq_ok.mp h
      cases h
      obtain ⟨used, rfl, hc⟩ := hitem _ _ _ hts hread
      exact ⟨used, rfl, .one hc⟩
  | succ fuel ih =>
      intro ts cs rest hts h
      obtain ⟨⟨c, ts'⟩, hread, hnext⟩ := bind_eq_ok.mp h
      obtain ⟨used, rfl, hc⟩ := hitem _ _ _ hts hread
      cases ts' with
      | nil =>
          cases hnext
          exact ⟨used, rfl, .one hc⟩
      | cons t ts' =>
          simp only [] at hnext
          split at hnext
          · next hseparator =>
              obtain ⟨⟨ds, rest'⟩, hmore, hds⟩ := bind_eq_ok.mp hnext
              cases hds
              obtain ⟨used', rfl, hds⟩ := ih _ _ _ (fun t ht => hts t (by simp [ht])) hmore
              exact ⟨used ++ separator :: used', by simp [hseparator], .more hc hds⟩
          · cases hnext
            exact ⟨used, rfl, .one hc⟩

/-- Separators are tokens, so a chain has at most one item more than there are tokens. -/
theorem Chain.length_le {separator : Token} {ts : List Token} {cs : List Criteria}
    (h : Chain IsItem separator ts cs) : cs.length ≤ ts.length + 1 := by
  induction h with
  | one => simp
  | more _ _ ih =>
      simp only [List.length_cons, List.length_append]
      omega

/-- A chain is taken whole before what is not its separator. -/
theorem chain_takes {separator : Token} {mayFollow : List Token → Prop}
    (hitem : Takes item IsItem mayFollow) (hseparator : ∀ ts, mayFollow (separator :: ts))
    (fuel : Nat) {used rest : List Token} {cs : List Criteria}
    (hchain : Chain IsItem separator used cs) (hrest : mayFollow rest)
    (hend : rest.head? ≠ some separator) (hfuel : cs.length ≤ fuel + 1) :
    chain item separator fuel (used ++ rest) = .ok (cs, rest) := by
  induction hchain generalizing fuel with
  | one hc =>
      have hread := hitem _ _ _ hc hrest
      cases fuel with
      | zero => exact map_eq_ok.mpr ⟨_, hread, rfl⟩
      | succ fuel =>
          refine bind_eq_ok.mpr ⟨_, hread, ?_⟩
          cases rest with
          | nil => rfl
          | cons t rest => exact if_neg fun ht => hend (congrArg some ht)
  | @more ts ts' c cs hc hcs ih =>
      have hpos : 0 < cs.length := by cases hcs <;> simp
      simp only [List.length_cons] at hfuel
      obtain ⟨fuel, rfl⟩ : ∃ n, fuel = n + 1 := ⟨fuel - 1, by omega⟩
      have hread := hitem ts c (separator :: (ts' ++ rest)) hc (hseparator _)
      have hmore := ih fuel (by omega)
      rw [List.append_assoc, List.cons_append, chain]
      refine bind_eq_ok.mpr ⟨_, hread, ?_⟩
      exact (if_pos rfl).trans (bind_eq_ok.mpr ⟨_, hmore, rfl⟩)

theorem joined_iff {op : Connective} {cs : List Criteria} {c : Criteria} :
    Joined op cs c ↔ cs ≠ [] ∧ join op cs = c := by
  constructor
  · rintro (_ | _) <;> exact ⟨List.cons_ne_nil _ _, rfl⟩
  · rintro ⟨hne, rfl⟩
    match cs, hne with
    | [c], _ => exact .one c
    | c :: d :: cs, _ => exact .many c d cs

theorem Chain.ne_nil {separator : Token} {ts : List Token} {cs : List Criteria}
    (h : Chain IsItem separator ts cs) : cs ≠ [] := by
  cases h <;> exact List.cons_ne_nil _ _

theorem joined_reads (hitem : Reads item IsItem) (separator : Token) (op : Connective) :
    Reads (fun ts => (chain item separator ts.length ts).map fun (cs, ts) => (join op cs, ts))
      (fun ts c => ∃ cs, Chain IsItem separator ts cs ∧ Joined op cs c) := by
  intro ts c rest hts h
  obtain ⟨⟨cs, rest'⟩, hread, h⟩ := map_eq_ok.mp h
  cases h
  obtain ⟨used, rfl, hcs⟩ := chain_reads hitem _ _ _ _ _ hts hread
  exact ⟨used, rfl, cs, hcs, joined_iff.mpr ⟨hcs.ne_nil, rfl⟩⟩

theorem joined_takes {separator : Token} {mayFollow : List Token → Prop}
    (hitem : Takes item IsItem mayFollow) (hseparator : ∀ ts, mayFollow (separator :: ts))
    (op : Connective) :
    Takes (fun ts => (chain item separator ts.length ts).map fun (cs, ts) => (join op cs, ts))
      (fun ts c => ∃ cs, Chain IsItem separator ts cs ∧ Joined op cs c)
      (fun rest => mayFollow rest ∧ rest.head? ≠ some separator) := by
  rintro used c rest ⟨cs, hcs, hc⟩ ⟨hrest, hend⟩
  have hlength := hcs.length_le
  have hchain := chain_takes hitem hseparator (used ++ rest).length hcs hrest hend
    (by simp only [List.length_append]; omega)
  exact map_eq_ok.mpr ⟨_, hchain, congrArg (·, rest) (joined_iff.mp hc).2⟩

theorem disjunction_reads (hunit : Reads item IsItem) :
    Reads (disjunction item) (IsDisjunction IsItem) :=
  joined_reads (joined_reads hunit .and .and) .or .or

theorem disjunction_takes (hunit : Takes item IsItem fun _ => True) :
    Takes (disjunction item) (IsDisjunction IsItem)
      (fun rest => (True ∧ rest.head? ≠ some .and) ∧ rest.head? ≠ some .or) :=
  joined_takes (joined_takes hunit (fun _ => trivial) .and) (fun _ => ⟨trivial, by simp⟩) .or

end Chain

/-! ## Units and queries -/

theorem unit_reads (room : Nat) : Reads (unit room) (IsUnit room) := by
  induction room with
  | zero =>
      intro ts c rest hts h
      unfold unit at h
      split at h
      · cases h
      · exact comparison_reads _ _ _ hts h
  | succ room ih =>
      intro ts c rest hts h
      unfold unit at h
      split at h
      · next ts' =>
          obtain ⟨⟨d, ts''⟩, hinner, h⟩ := bind_eq_ok.mp h
          obtain ⟨rest', hparen, h⟩ := bind_eq_ok.mp h
          cases h
          obtain ⟨inner, rfl, hd⟩ :=
            disjunction_reads ih _ _ _ (List.forall_mem_cons.mp hts).2 hinner
          obtain rfl := expect_eq_ok.mp hparen
          exact ⟨.leftParen :: (inner ++ [.rightParen]), by simp, .inr ⟨inner, rfl, hd⟩⟩
      · obtain ⟨used, hused, hc⟩ := comparison_reads _ _ _ hts h
        exact ⟨used, hused, .inl hc⟩

/-- A comparison starts with its field, so it is not taken for a query in parentheses. -/
theorem unit_comparison {used : List Token} {c : Criteria} (hc : IsComparison used c)
    (room : Nat) (rest : List Token) : unit room (used ++ rest) = .ok (c, rest) := by
  have hcomparison := comparison_takes used c rest hc trivial
  rw [← hcomparison]
  cases hc <;> cases room <;> rfl

theorem unit_takes (room : Nat) : Takes (unit room) (IsUnit room) fun _ => True := by
  induction room with
  | zero => exact fun used c rest hc _ => unit_comparison hc 0 rest
  | succ room ih =>
      rintro used c rest (hc | ⟨inner, rfl, hc⟩) -
      · exact unit_comparison hc (room + 1) rest
      · have hinner := disjunction_takes ih inner c (.rightParen :: rest) hc (by simp)
        rw [List.cons_append, List.append_assoc]
        exact bind_eq_ok.mpr ⟨_, hinner, bind_eq_ok.mpr ⟨_, expect_eq_ok.mpr rfl, rfl⟩⟩

/-- Tokens that are a query are read as it, to the last of them. -/
theorem disjunction_of_derives {depth : Nat} {ts : List Token} {c : Criteria}
    (h : Derives depth ts c) : disjunction (unit depth) ts = .ok (c, []) := by
  have htakes := disjunction_takes (unit_takes depth) ts c [] h (by simp)
  rwa [List.append_nil] at htakes

/-- No tokens stand for two queries, however deep parentheses may nest. -/
theorem Derives.unique {depth depth' : Nat} {ts : List Token} {c c' : Criteria}
    (h : Derives depth ts c) (h' : Derives depth' ts c') : c = c' := by
  have hread := disjunction_of_derives (h.mono (Nat.le_max_left depth depth'))
  have hread' := disjunction_of_derives (h'.mono (Nat.le_max_right depth depth'))
  exact (Prod.mk.inj (Except.ok.inj (hread.symm.trans hread'))).1

theorem not_derives_nil {depth : Nat} {c : Criteria} : ¬ Derives depth [] c := by
  intro h
  have hread := disjunction_of_derives h
  cases depth <;> cases hread

theorem ofTokens_eq_ok {ts : List Token} (hts : ∀ t ∈ ts, Lexical t) {c : Criteria} :
    ofTokens ts = .ok c ↔ Derives Criteria.maxHeight ts c ∧ c.levels ≤ Criteria.maxHeight := by
  rw [← Criteria.height_eq_levels]
  cases ts with
  | nil => exact ⟨nofun, fun h => absurd h.1 not_derives_nil⟩
  | cons t ts =>
      constructor
      · intro h
        obtain ⟨⟨d, rest⟩, hread, h⟩ := bind_eq_ok.mp h
        cases rest with
        | cons => cases h
        | nil =>
            simp only [] at h
            split at h
            · cases h
            · next hheight =>
                cases h
                obtain ⟨used, hused, hd⟩ := disjunction_reads (unit_reads _) _ _ _ hts hread
                rw [hused, List.append_nil]
                exact ⟨hd, Nat.le_of_not_lt hheight⟩
      · rintro ⟨hderives, hheight⟩
        refine bind_eq_ok.mpr ⟨_, disjunction_of_derives hderives, ?_⟩
        exact if_neg (Nat.not_lt.mpr hheight)

/-! ## Texts -/

/-- The text is a query for the criteria: its tokens are, to the last one, with parentheses
nested no deeper than criteria may be, and the criteria are no higher. -/
def Means (q : String) (c : Criteria) : Prop :=
  ∃ ts, scan q = .ok ts ∧ Derives Criteria.maxHeight ts c ∧ c.levels ≤ Criteria.maxHeight

theorem parse_eq_ok {q : String} {c : Criteria} : parse q = .ok c ↔ Means q c := by
  constructor
  · intro h
    obtain ⟨ts, hscan, h⟩ := bind_eq_ok.mp h
    exact ⟨ts, hscan, (ofTokens_eq_ok (lexical_of_scan hscan)).mp h⟩
  · rintro ⟨ts, hscan, h⟩
    exact bind_eq_ok.mpr ⟨ts, hscan, (ofTokens_eq_ok (lexical_of_scan hscan)).mpr h⟩

/-- A text is read as criteria exactly if it is a query for them, and no other criteria are
in its tokens at any depth of parentheses. All else is malformed: what does not scan for the
scanner's reason, and a blank text because it has no tokens. -/
theorem parse_accepts_grammar (q : String) :
    (∀ c, parse q = .ok c ↔ Means q c) ∧
    (∀ ts depth depth' c c', scan q = .ok ts → Derives depth ts c → Derives depth' ts c' →
      c = c') ∧
    ((∀ c, ¬ Means q c) →
      ∃ reason, (parse q).mapError Failure.ofQuery = .error (.malformedCriteria reason)) ∧
    (∀ e, scan q = .error e →
      (parse q).mapError Failure.ofQuery = .error (.malformedCriteria e.message)) ∧
    (Text.isAllBlank q = true →
      (parse q).mapError Failure.ofQuery = .error (.malformedCriteria "empty query")) := by
  refine ⟨fun c => parse_eq_ok, fun _ _ _ _ _ _ h h' => h.unique h', fun hnone => ?_,
    fun e he => ?_, fun hblank => ?_⟩
  · cases h : parse q with
    | ok c => exact absurd (parse_eq_ok.mp h) (hnone c)
    | error e => exact ⟨e.message, rfl⟩
  · rw [parse, he]
    rfl
  · have hscan : scan q = .ok [] := by
      have hscans := Scans.blanks (List.all_eq_true.mp hblank) .nil
      rw [List.append_nil] at hscans
      exact hscans.scan
    rw [parse, hscan]
    rfl

/-- A range has a connective of its own, and a chain in parentheses is one operand. -/
theorem parse_accepts_grammar_nested :
    let q := "a between 1 AND 2 and (b != x OR c NOT in (null, 'y'))"
    let c : Criteria := .logical .and
      [.between "a" (.number (.int 1)) (.number (.int 2)),
        .logical .or
          [.compare .ne "b" (.string "x"), .compare .notIn "c" (.array [.null, .string "y"])]]
    parse q = .ok c ∧ (∀ d, Means q d → d = c) ∧
    (∃ reason, (parse "a = 1 or").mapError Failure.ofQuery =
      .error (.malformedCriteria reason)) ∧
    (parse "a = 'open").mapError Failure.ofQuery =
      .error (.malformedCriteria "unterminated string literal") ∧
    (parse " \t").mapError Failure.ofQuery = .error (.malformedCriteria "empty query") := by
  intro q c
  have hscan : scan q = .ok [.word "a", .word "between", .number (.int 1), .and,
      .number (.int 2), .and, .leftParen, .word "b", .op .ne, .word "x", .or, .word "c",
      .word "NOT", .word "in", .leftParen, .word "null", .comma, .text "y", .rightParen,
      .rightParen] := by decide +kernel
  have ha : IsComparison [.word "a", .word "between", .number (.int 1), .and, .number (.int 2)]
      (.between "a" (.number (.int 1)) (.number (.int 2))) :=
    .between (by decide) (.word (by decide)) (.number _) (.number _)
  have hb : IsComparison [.word "b", .op .ne, .word "x"] (.compare .ne "b" (.string "x")) :=
    .sign (by decide) (by decide) (.bareword (by decide) (by decide))
  have hc : IsComparison [.word "c", .word "NOT", .word "in", .leftParen, .word "null", .comma,
      .text "y", .rightParen] (.compare .notIn "c" (.array [.null, .string "y"])) :=
    .notIn (by decide) (.word (by decide)) (.word (by decide))
      (.more (.null (by decide)) (.one (.text _)))
  have hb' : IsConjunction (IsUnit 63) _ _ := .one (.comparison hb)
  have hc' : IsConjunction (IsUnit 63) _ _ := .one (.comparison hc)
  have hinner : Derives 63 [.word "b", .op .ne, .word "x", .or, .word "c", .word "NOT",
      .word "in", .leftParen, .word "null", .comma, .text "y", .rightParen]
      (.logical .or
        [.compare .ne "b" (.string "x"), .compare .notIn "c" (.array [.null, .string "y"])]) :=
    ⟨_, .more hb' (.one hc'), .many _ _ _⟩
  have ha' : IsUnit 64 _ _ := .comparison ha
  have hinner' : IsUnit 64 _ _ := .inr ⟨_, rfl, hinner⟩
  have hmeans : Means q c :=
    ⟨_, hscan, ⟨_, .one ⟨_, .more ha' (.one hinner'), .many _ _ _⟩, .one _⟩, by decide⟩
  obtain ⟨haccepts, hunique, -⟩ := parse_accepts_grammar q
  refine ⟨(haccepts c).mpr hmeans, fun d hd => ?_, ?_, ?_, ?_⟩
  · obtain ⟨ts, hscan, hc, -⟩ := hmeans
    obtain ⟨ts', hscan', hd, -⟩ := hd
    obtain rfl := Except.ok.inj (hscan.symm.trans hscan')
    exact hunique ts _ _ d c hscan hd hc
  · obtain ⟨haccepts, -, hrefuses, -⟩ := parse_accepts_grammar "a = 1 or"
    refine hrefuses fun c hc => ?_
    have hscan : scan "a = 1 or" = .ok [.word "a", .op .eq, .number (.int 1), .or] := by
      decide +kernel
    have hparse := (haccepts c).mpr hc
    rw [parse, hscan] at hparse
    cases hparse
  · exact (parse_accepts_grammar "a = 'open").2.2.2.1 .unterminatedText (by decide +kernel)
  · exact (parse_accepts_grammar " \t").2.2.2.2 (by decide)

end Grove.Query
