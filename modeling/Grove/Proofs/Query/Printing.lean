import Grove.Proofs.Query.Parsing
import Grove.Proofs.Query.Spelling

/-!
# Criteria printed as queries

Criteria have a canonical query: the tokens of the grammar in their plainest form, with
parentheses around every operand that is itself logical and nowhere else. It is read back as
the same criteria, whatever blanks are put between its tokens.

The parentheses are what the induction has to pay for. An operand has one level less than
its connective and stands in at most one pair of parentheses more, so criteria of no more
than a given number of levels nest parentheses one less deep (`derives_tokens`). The
parser's two bounds are therefore met at once, and the bound on the levels is the only one
that a caller has to think of.
-/

namespace Grove.Query

/-- The values that a query has words for. -/
def IsScalar : Json → Prop
  | .null | .bool _ | .string _ => True
  | .number n => IsInt64 n
  | .array _ | .object _ => False

/-- What a query can hold a field against by the operator. -/
def Admits : Comparison → Json → Prop
  | .isIn, v | .notIn, v => ∃ vs, v = .array vs ∧ vs ≠ [] ∧ ∀ w ∈ vs, IsScalar w
  | .like, v => ∃ s, v = .string s
  | _, v => IsScalar v

mutual

/-- Criteria that can be printed. A connective of fewer than two operands has no form of its
own in a query. -/
def Printable : Criteria → Prop
  | .compare op f v => IsField f ∧ Admits op v
  | .between f v w => IsField f ∧ IsScalar v ∧ IsScalar w
  | .logical _ cs => 2 ≤ cs.length ∧ AllPrintable cs

def AllPrintable : List Criteria → Prop
  | [] => True
  | c :: cs => Printable c ∧ AllPrintable cs

end

/-! ## The printer -/

def scalarTokens : Json → List Token
  | .null => [.word "null"]
  | .bool true => [.word "true"]
  | .bool false => [.word "false"]
  | .string s => [.text s]
  | .number n => [.number n]
  | .array _ | .object _ => []

def operandTokens : Json → List Token
  | .array vs => .leftParen :: ([.comma].intercalate (vs.map scalarTokens) ++ [.rightParen])
  | v => scalarTokens v

def operatorTokens : Comparison → List Token
  | .isIn => [.word "in"]
  | .notIn => [.word "not", .word "in"]
  | .like => [.word "like"]
  | o => [.op o]

def connectiveToken : Connective → Token
  | .and => .and
  | .or => .or

def enclosed : Criteria → List Token → List Token
  | .logical _ _, ts => .leftParen :: (ts ++ [.rightParen])
  | _, ts => ts

mutual

def tokens : Criteria → List Token
  | .compare op f v => .word f :: (operatorTokens op ++ operandTokens v)
  | .between f v w => .word f :: .word "between" :: (scalarTokens v ++ .and :: scalarTokens w)
  | .logical op cs => [connectiveToken op].intercalate (pieces cs)

def pieces : List Criteria → List (List Token)
  | [] => []
  | c :: cs => enclosed c (tokens c) :: pieces cs

end

/-! ## The tokens are a query -/

theorem isConstant_scalar {v : Json} (h : IsScalar v) :
    ∃ t, scalarTokens v = [t] ∧ IsConstant t v := by
  cases v with
  | null => exact ⟨_, rfl, .null (by decide)⟩
  | bool b =>
      cases b with
      | true => exact ⟨_, rfl, .true (by decide)⟩
      | false => exact ⟨_, rfl, .false (by decide)⟩
  | string s => exact ⟨_, rfl, .text s⟩
  | number n => exact ⟨_, rfl, .number n⟩
  | array | object => exact absurd h id

theorem isList_scalars {vs : List Json} (hne : vs ≠ []) (h : ∀ v ∈ vs, IsScalar v) :
    IsList ([.comma].intercalate (vs.map scalarTokens)) vs := by
  induction vs with
  | nil => exact absurd rfl hne
  | cons v vs ih =>
      rw [List.forall_mem_cons] at h
      obtain ⟨t, ht, hv⟩ := isConstant_scalar h.1
      cases vs with
      | nil =>
          rw [List.map_singleton, List.intercalate_singleton, ht]
          exact .one hv
      | cons w vs =>
          have hrest := ih (List.cons_ne_nil w vs) h.2
          rw [List.map_cons, List.map_cons, List.intercalate_cons_cons, ht]
          exact .more hv hrest

theorem operandTokens_scalar {v : Json} (h : IsScalar v) : operandTokens v = scalarTokens v := by
  cases v <;> first | rfl | exact absurd h id

theorem isComparison_compare {op : Comparison} {f : String} {v : Json}
    (h : Printable (.compare op f v)) :
    IsComparison (tokens (.compare op f v)) (.compare op f v) := by
  obtain ⟨hf, hv⟩ := h
  cases op with
  | isIn =>
      obtain ⟨vs, rfl, hne, hvs⟩ := hv
      exact .isIn hf (.word (by decide)) (isList_scalars hne hvs)
  | notIn =>
      obtain ⟨vs, rfl, hne, hvs⟩ := hv
      exact .notIn hf (.word (by decide)) (.word (by decide)) (isList_scalars hne hvs)
  | like =>
      obtain ⟨s, rfl⟩ := hv
      exact .like hf (.word (by decide)) s
  | eq | ne | gt | gte | lt | lte =>
      obtain ⟨t, ht, hconstant⟩ := isConstant_scalar hv
      rw [tokens, operandTokens_scalar hv, ht]
      exact .sign hf (by decide) hconstant

theorem isComparison_between {f : String} {v w : Json} (h : Printable (.between f v w)) :
    IsComparison (tokens (.between f v w)) (.between f v w) := by
  obtain ⟨hf, hv, hw⟩ := h
  obtain ⟨t, ht, hv⟩ := isConstant_scalar hv
  obtain ⟨u, hu, hw⟩ := isConstant_scalar hw
  rw [tokens, ht, hu]
  exact .between hf (.word (by decide)) hv hw

theorem derives_comparison {depth : Nat} {ts : List Token} {c : Criteria}
    (h : IsComparison ts c) : Derives depth ts c :=
  ⟨[c], .one (.one (.comparison h)), .one c⟩

/-- An operand is a unit, and pays for its parentheses with the level that it has below its
connective. -/
theorem isUnit_enclosed {depth : Nat} {c : Criteria} (hc : Printable c)
    (hlevels : c.levels ≤ depth)
    (hderives : ∀ room, c.levels ≤ room + 1 → Derives room (tokens c) c) :
    IsUnit depth (enclosed c (tokens c)) c := by
  cases c with
  | compare op f v => exact .comparison (isComparison_compare hc)
  | between f v w => exact .comparison (isComparison_between hc)
  | logical op cs =>
      have hpos := Criteria.levels_pos (.logical op cs)
      obtain ⟨room, rfl⟩ : ∃ n, depth = n + 1 := ⟨depth - 1, by omega⟩
      exact .inr ⟨_, rfl, hderives room hlevels⟩

mutual

/-- The tokens of criteria are a query for them, with parentheses nested less deep than there
are levels. -/
theorem derives_tokens : ∀ (c : Criteria) (depth : Nat), Printable c → c.levels ≤ depth + 1 →
    Derives depth (tokens c) c
  | .compare _ _ _, _, hc, _ => derives_comparison (isComparison_compare hc)
  | .between _ _ _, _, hc, _ => derives_comparison (isComparison_between hc)
  | .logical op cs, depth, ⟨hlength, hcs⟩, hlevels => by
      have hdepth : Criteria.levelsOfAll cs ≤ depth := Nat.le_of_succ_le_succ hlevels
      have hchain := chain_pieces cs depth (connectiveToken op) hcs hdepth
      match cs, hlength with
      | c :: d :: cs, _ =>
          have hchain := hchain (List.cons_ne_nil _ _)
          cases op with
          | and => exact ⟨_, .one ⟨_, hchain, .many c d cs⟩, .one _⟩
          | or => exact ⟨_, hchain.mono fun _ _ => .one, .many c d cs⟩

theorem chain_pieces : ∀ (cs : List Criteria) (depth : Nat) (separator : Token),
    AllPrintable cs → Criteria.levelsOfAll cs ≤ depth → cs ≠ [] →
    Chain (IsUnit depth) separator ([separator].intercalate (pieces cs)) cs
  | [], _, _, _, _, hne => absurd rfl hne
  | [c], depth, separator, ⟨hc, _⟩, hlevels, _ => by
      rw [pieces, pieces, List.intercalate_singleton]
      rw [Criteria.levelsOfAll, Nat.max_le] at hlevels
      exact .one (isUnit_enclosed hc hlevels.1 fun room => derives_tokens c room hc)
  | c :: d :: cs, depth, separator, ⟨hc, hcs⟩, hlevels, _ => by
      rw [Criteria.levelsOfAll, Nat.max_le] at hlevels
      have hunit := isUnit_enclosed hc hlevels.1 fun room => derives_tokens c room hc
      have hrest := chain_pieces (d :: cs) depth separator hcs hlevels.2 (List.cons_ne_nil d cs)
      rw [pieces] at hrest
      rw [pieces, pieces, List.intercalate_cons_cons, List.append_assoc]
      exact .more hunit hrest

end

/-! ## The tokens can be spelled -/

theorem IsField.legible {f : String} (h : IsField f) : Legible (.word f) := by
  refine ⟨h.1, fun hand => h.2 ?_, fun hor => h.2 ?_⟩
  · simp [reserved, hand]
  · simp [reserved, hor]

theorem legible_scalar {v : Json} (h : IsScalar v) : ∀ t ∈ scalarTokens v, Legible t := by
  cases v with
  | null => exact List.forall_mem_singleton.mpr ⟨by decide, by decide, by decide⟩
  | bool b =>
      cases b <;> exact List.forall_mem_singleton.mpr ⟨by decide, by decide, by decide⟩
  | string s => exact List.forall_mem_singleton.mpr trivial
  | number n => exact List.forall_mem_singleton.mpr h
  | array | object => exact absurd h id

theorem legible_intercalate {separator : Token} (hseparator : Legible separator)
    {words : List (List Token)} (hwords : ∀ ts ∈ words, ∀ t ∈ ts, Legible t) :
    ∀ t ∈ [separator].intercalate words, Legible t := by
  induction words with
  | nil => exact fun _ ht => absurd ht List.not_mem_nil
  | cons ts words ih =>
      rw [List.forall_mem_cons] at hwords
      cases words with
      | nil =>
          rw [List.intercalate_singleton]
          exact hwords.1
      | cons us words =>
          rw [List.intercalate_cons_cons]
          exact List.forall_mem_append.mpr
            ⟨List.forall_mem_append.mpr ⟨hwords.1, List.forall_mem_singleton.mpr hseparator⟩,
              ih hwords.2⟩

theorem legible_operator (op : Comparison) : ∀ t ∈ operatorTokens op, Legible t := by
  cases op with
  | notIn =>
      exact List.forall_mem_cons.mpr ⟨⟨by decide, by decide, by decide⟩,
        List.forall_mem_singleton.mpr ⟨by decide, by decide, by decide⟩⟩
  | isIn | like => exact List.forall_mem_singleton.mpr ⟨by decide, by decide, by decide⟩
  | eq | ne | gt | gte | lt | lte =>
      exact List.forall_mem_singleton.mpr (by decide : _ ∈ Comparison.signs)

theorem legible_list {vs : List Json} (h : ∀ v ∈ vs, IsScalar v) :
    ∀ t ∈ operandTokens (.array vs), Legible t := by
  have hcomma : Legible .comma := trivial
  have hlist : ∀ t ∈ [Token.comma].intercalate (vs.map scalarTokens), Legible t := by
    refine legible_intercalate hcomma fun ts hts => ?_
    obtain ⟨v, hv, rfl⟩ := List.mem_map.mp hts
    exact legible_scalar (h v hv)
  exact List.forall_mem_cons.mpr
    ⟨trivial, List.forall_mem_append.mpr ⟨hlist, List.forall_mem_singleton.mpr trivial⟩⟩

theorem legible_operand {op : Comparison} {v : Json} (h : Admits op v) :
    ∀ t ∈ operandTokens v, Legible t := by
  cases op with
  | isIn | notIn =>
      obtain ⟨vs, rfl, -, hvs⟩ := h
      exact legible_list hvs
  | like =>
      obtain ⟨s, rfl⟩ := h
      exact List.forall_mem_singleton.mpr trivial
  | eq | ne | gt | gte | lt | lte => exact operandTokens_scalar h ▸ legible_scalar h

theorem legible_enclosed (c : Criteria) {ts : List Token} (h : ∀ t ∈ ts, Legible t) :
    ∀ t ∈ enclosed c ts, Legible t := by
  cases c with
  | compare | between => exact h
  | logical =>
      exact List.forall_mem_cons.mpr
        ⟨trivial, List.forall_mem_append.mpr ⟨h, List.forall_mem_singleton.mpr trivial⟩⟩

mutual

theorem legible_tokens : ∀ c : Criteria, Printable c → ∀ t ∈ tokens c, Legible t
  | .compare op _ _, ⟨hf, hv⟩ =>
      List.forall_mem_cons.mpr ⟨hf.legible,
        List.forall_mem_append.mpr ⟨legible_operator op, legible_operand hv⟩⟩
  | .between _ _ _, ⟨hf, hv, hw⟩ =>
      List.forall_mem_cons.mpr ⟨hf.legible, List.forall_mem_cons.mpr
        ⟨⟨by decide, by decide, by decide⟩, List.forall_mem_append.mpr
          ⟨legible_scalar hv, List.forall_mem_cons.mpr ⟨trivial, legible_scalar hw⟩⟩⟩⟩
  | .logical op cs, ⟨_, hcs⟩ =>
      legible_intercalate (by cases op <;> trivial) (legible_pieces cs hcs)

theorem legible_pieces : ∀ cs : List Criteria, AllPrintable cs →
    ∀ ts ∈ pieces cs, ∀ t ∈ ts, Legible t
  | [], _ => fun _ hts => absurd hts List.not_mem_nil
  | c :: cs, ⟨hc, hcs⟩ =>
      List.forall_mem_cons.mpr ⟨legible_enclosed c (legible_tokens c hc), legible_pieces cs hcs⟩

end

/-! ## Printing and reading -/

/-- Criteria are read back from their query, whatever blanks stand between its tokens. -/
theorem parse_printed {c : Criteria} {q : String} (hc : Printable c)
    (hlevels : c.levels ≤ Criteria.maxHeight)
    (hq : Spaced ((tokens c).map Token.spelling) q.toList) : parse q = .ok c := by
  have hscan : Token.scan q = .ok (tokens c) :=
    (scans_of_spaced (legible_tokens c hc) hq).scan
  have hderives : Derives Criteria.maxHeight (tokens c) c :=
    derives_tokens c Criteria.maxHeight hc (Nat.le_succ_of_le hlevels)
  exact parse_eq_ok.mpr ⟨tokens c, hscan, hderives, hlevels⟩

/-- Text with quotes and backslashes, the least integer, and blanks that are not spaces. -/
theorem parse_printed_quoted :
    let c : Criteria := .logical .and
      [.compare .ne "not_in.a" (.string "say \"hi\\"),
        .logical .or
          [.compare .notIn "b" (.array [.number (.int (-9223372036854775808)), .null]),
            .between "c" (.bool true) (.string "")]]
    let q := "not_in.a\t\n!=\t\n\"say \\\"hi\\\\\"\t\nand\t\n(\t\nb\t\nnot\t\nin\t\n(\t\n" ++
      "-9223372036854775808\t\n,\t\nnull\t\n)\t\nor\t\nc\t\nbetween\t\ntrue\t\nand\t\n\"\"\t\n)"
    Printable c ∧ c.levels ≤ Criteria.maxHeight ∧
      Spaced ((tokens c).map Token.spelling) q.toList ∧ parse q = .ok c := by
  intro c q
  have hscalars : ∀ v ∈ [Json.number (.int (-9223372036854775808)), .null], IsScalar v :=
    List.forall_mem_cons.mpr ⟨⟨_, rfl, by decide, by decide⟩, List.forall_mem_singleton.mpr trivial⟩
  have hc : Printable c :=
    ⟨by decide, ⟨by decide, trivial⟩,
      ⟨by decide, ⟨by decide, _, rfl, List.cons_ne_nil _ _, hscalars⟩,
        ⟨by decide, trivial, trivial⟩, trivial⟩, trivial⟩
  have hlevels : c.levels ≤ Criteria.maxHeight := by decide
  have htext : q.toList = ['\t', '\n'].intercalate ((tokens c).map Token.spelling) := by
    decide +kernel
  have hq : Spaced ((tokens c).map Token.spelling) q.toList :=
    htext ▸ spaced_intercalate (by decide) (List.all_eq_true.mp (by decide)) (by decide)
  exact ⟨hc, hlevels, hq, parse_printed hc hlevels hq⟩

end Grove.Query
