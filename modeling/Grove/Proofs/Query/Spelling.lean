import Grove.Json.Printer
import Grove.Proofs.Query.Lexing
import Grove.Proofs.Text.Integer

/-!
# Tokens spelled out

Each token has one spelling here, although queries admit more: connectives in words, text
in double quotes with a backslash before what would end it or be a backslash, numbers as
they are printed. A token that is spelled before a blank, or at the end, is read back as it
is (`lexeme_spelling`): no spelling goes on into a blank, so where one token ends is never
in doubt. Tokens with blanks in between are then read back one by one.
-/

namespace Grove

namespace Token

def escape (c : Char) : List Char := if c = '\x22' ∨ c = '\\' then ['\\', c] else [c]

def spelling : Token → List Char
  | .word s => s.toList
  | .text s => '\x22' :: (s.toList.flatMap escape ++ ['\x22'])
  | .number n => n.text.toList
  | .op o => o.symbol.toList
  | .leftParen => ['(']
  | .rightParen => [')']
  | .comma => [',']
  | .and => "and".toList
  | .or => "or".toList

end Token

namespace Query

open Token (lexeme scan ofWord spelling escape isWordStart isWordChar isNumberChar readNumber)

def IsInt64 (n : Number) : Prop :=
  ∃ i : Int, n = .int i ∧ -0x8000000000000000 ≤ i ∧ i < 0x8000000000000000

/-- The tokens that are read back from their spelling. -/
def Legible : Token → Prop
  | .number n => IsInt64 n
  | t => Lexical t

/-- Spellings in their order with blanks in between. -/
inductive Spaced : List (List Char) → List Char → Prop
  | one (word : List Char) : Spaced [word] word
  | more (word : List Char) {gap : List Char} {words : List (List Char)} {rest : List Char}
      (hgap : gap ≠ []) (hblank : ∀ c ∈ gap, Text.isBlank c = true) (hrest : Spaced words rest) :
      Spaced (word :: words) (word ++ (gap ++ rest))

/-- The same blanks may stand everywhere. -/
theorem spaced_intercalate {gap : List Char} (hgap : gap ≠ [])
    (hblank : ∀ c ∈ gap, Text.isBlank c = true) {words : List (List Char)} (hne : words ≠ []) :
    Spaced words (gap.intercalate words) := by
  induction words with
  | nil => exact absurd rfl hne
  | cons word words ih =>
      cases words with
      | nil =>
          rw [List.intercalate_singleton]
          exact .one word
      | cons next words =>
          rw [List.intercalate_cons_cons, List.append_assoc]
          exact .more word hgap hblank (ih (List.cons_ne_nil next words))

/-- Nothing follows, or a blank does. -/
def Ends (rest : List Char) : Prop := ∀ c ∈ rest.head?, Text.isBlank c = true

variable {position : Nat} {c : Char} {cs rest : List Char}

/-! ## Where a spelling ends -/

theorem isAlpha_iff_toNat :
    c.isAlpha = true ↔ 65 ≤ c.toNat ∧ c.toNat ≤ 90 ∨ 97 ≤ c.toNat ∧ c.toNat ≤ 122 := by
  have hupper : c.isUpper = decide (65 ≤ c.toNat ∧ c.toNat ≤ 90) := rfl
  have hlower : c.isLower = (decide (97 ≤ c.toNat) && decide (c.toNat ≤ 122)) := rfl
  have halpha : c.isAlpha = (c.isUpper || c.isLower) := rfl
  simp [halpha, hupper, hlower]

theorem not_isAlphanum_of_isBlank (h : Text.isBlank c = true) : c.isAlphanum = false := by
  simp only [Text.isBlank, Bool.or_eq_true, Bool.and_eq_true, decide_eq_true_eq, beq_iff_eq] at h
  have halphanum : c.isAlphanum = (c.isAlpha || c.isDigit) := rfl
  rw [← Bool.not_eq_true, halphanum, Bool.or_eq_true, isAlpha_iff_toNat, Char.isDigit_iff_toNat]
  simp only [Char.reduceToNat]
  omega

theorem ne_of_isBlank {d : Char} (h : Text.isBlank c = true) (hd : Text.isBlank d = false) :
    c ≠ d := fun heq => by rw [heq, hd] at h; cases h

theorem not_isWordChar_of_isBlank (h : Text.isBlank c = true) : isWordChar c = false := by
  simp [isWordChar, not_isAlphanum_of_isBlank h,
    ne_of_isBlank h (by decide : Text.isBlank '_' = false),
    ne_of_isBlank h (by decide : Text.isBlank '.' = false)]

theorem not_isNumberChar_of_isBlank (h : Text.isBlank c = true) : isNumberChar c = false := by
  have halphanum : (c.isAlpha || c.isDigit) = false := not_isAlphanum_of_isBlank h
  rw [Bool.or_eq_false_iff] at halphanum
  simp [isNumberChar, halphanum.2, ne_of_isBlank h (by decide : Text.isBlank '.' = false)]

/-- Characters of a class that has no blanks are taken to the end of the spelling. -/
theorem span_of_ends {p : Char → Bool} (hp : ∀ c, Text.isBlank c = true → p c = false)
    (hcs : ∀ c ∈ cs, p c = true) (hrest : Ends rest) :
    (cs ++ rest).takeWhile p = cs ∧ (cs ++ rest).dropWhile p = rest := by
  rw [List.takeWhile_append_of_pos hcs, List.dropWhile_append_of_pos hcs]
  cases rest with
  | nil => simp
  | cons c rest =>
      have hc : p c = false := hp c (hrest c rfl)
      simp [hc]

/-! ## Each kind of token -/

theorem toNat_of_isWordStart (h : isWordStart c = true) :
    65 ≤ c.toNat ∧ c.toNat ≤ 90 ∨ 97 ≤ c.toNat ∧ c.toNat ≤ 122 ∨ c.toNat = 95 := by
  rw [isWordStart, Bool.or_eq_true, isAlpha_iff_toNat, decide_eq_true_eq] at h
  rcases h with (h | h) | rfl
  · exact .inl h
  · exact .inr (.inl h)
  · exact .inr (.inr rfl)

theorem not_isBlank_of_toNat (hlow : 33 ≤ c.toNat) (hhigh : c.toNat ≤ 126) :
    Text.isBlank c = false := by
  rw [← Bool.not_eq_true]
  simp only [Text.isBlank, Bool.or_eq_true, Bool.and_eq_true, decide_eq_true_eq, beq_iff_eq]
  omega

theorem lexeme_word (hc : isWordStart c = true) :
    lexeme position c cs =
      .ok (some (ofWord (String.ofList (c :: cs.takeWhile isWordChar))),
        cs.dropWhile isWordChar) := by
  have hrange := toNat_of_isWordStart hc
  have hblank : Text.isBlank c = false := not_isBlank_of_toNat (by omega) (by omega)
  have hdigit : c.isDigit = false := by
    rw [← Bool.not_eq_true, Char.isDigit_iff_toNat]
    simp only [Char.reduceToNat]
    omega
  have hne : ∀ d, isWordStart d = false → c ≠ d := fun d hd heq => by rw [heq, hd] at hc; cases hc
  unfold lexeme
  simp [hblank, hdigit, hc, hne '(' rfl, hne ')' rfl, hne ',' rfl, hne '&' rfl, hne '|' rfl,
    hne '=' rfl, hne '!' rfl, hne '<' rfl, hne '>' rfl, hne '\x22' rfl, hne '\x27' rfl, hne '-' rfl]

theorem lexeme_identifier {s : String} (hs : IsIdentifier s) (hrest : Ends rest) :
    ∃ c cs, s.toList = c :: cs ∧
      ∀ position, lexeme position c (cs ++ rest) = .ok (some (ofWord s), rest) := by
  obtain ⟨c, cs, hs, hc, hcs⟩ := hs
  have hstart : isWordStart c = true := by simpa [isWordStart] using hc
  obtain ⟨htake, hdrop⟩ := span_of_ends (p := isWordChar) (fun _ => not_isWordChar_of_isBlank)
    (fun d hd => by simpa [isWordChar, or_assoc] using hcs d hd) hrest
  refine ⟨c, cs, hs, fun position => ?_⟩
  rw [lexeme_word hstart, htake, hdrop, ← hs, String.ofList_toList]

theorem lexeme_number (hc : c.isDigit = true ∨ c = '-' ∧ cs.head?.any Char.isDigit = true) :
    lexeme position c cs =
      (readNumber (String.ofList (c :: cs.takeWhile isNumberChar))).map fun n =>
        (some (.number n), cs.dropWhile isNumberChar) := by
  have hrange : 48 ≤ c.toNat ∧ c.toNat ≤ 57 ∨ c = '-' := hc.imp Char.isDigit_iff_toNat.mp And.left
  have hblank : Text.isBlank c = false := by
    rcases hrange with hrange | rfl
    · exact not_isBlank_of_toNat (by omega) (by omega)
    · rfl
  have hne : ∀ d, d.isDigit = false → d ≠ '-' → c ≠ d := by
    rintro d hd hminus rfl
    rcases hc with hc | hc
    · rw [hd] at hc
      cases hc
    · exact hminus hc.1
  have hstarts : (c.isDigit || (c = '-' && cs.head?.any Char.isDigit)) = true := by
    simpa using hc
  unfold lexeme
  rw [if_pos hstarts]
  simp [hblank, hne '(' rfl, hne ')' rfl, hne ',' rfl, hne '&' rfl, hne '|' rfl,
    hne '=' rfl, hne '!' rfl, hne '<' rfl, hne '>' rfl, hne '\x22' rfl, hne '\x27' rfl]

theorem lexeme_integer {n : Int} (hlow : -0x8000000000000000 ≤ n) (hhigh : n < 0x8000000000000000)
    (hrest : Ends rest) :
    ∃ c cs, (toString n).toList = c :: cs ∧
      ∀ position, lexeme position c (cs ++ rest) = .ok (some (.number (.int n)), rest) := by
  have hread : readNumber (toString n) = .ok (.int n) := by
    rw [readNumber, Text.readInt64?_toString hlow hhigh]
  -- after the first character, which may be a sign, there are digits
  obtain ⟨c, cs, hn, hstarts, hcs⟩ : ∃ c cs, (toString n).toList = c :: cs ∧
      (c.isDigit = true ∨ c = '-' ∧ (cs ++ rest).head?.any Char.isDigit = true) ∧
      ∀ d ∈ cs, d.isDigit = true := by
    rw [Text.toList_toString]
    split
    · obtain ⟨d, ds, hdigits⟩ :=
        List.exists_cons_of_ne_nil (Nat.toDigits_ne_nil (n := n.toNat) (b := 10))
      have hall : ∀ e ∈ d :: ds, e.isDigit = true := fun e he =>
        Text.isDigit_of_mem_digits (hdigits ▸ he)
      exact ⟨d, ds, hdigits, .inl (hall d List.mem_cons_self),
        fun e he => hall e (List.mem_cons_of_mem d he)⟩
    · obtain ⟨d, ds, hdigits⟩ :=
        List.exists_cons_of_ne_nil (Nat.toDigits_ne_nil (n := (-n).toNat) (b := 10))
      have hall : ∀ e ∈ d :: ds, e.isDigit = true := fun e he =>
        Text.isDigit_of_mem_digits (hdigits ▸ he)
      exact ⟨'-', d :: ds, by rw [hdigits], .inr ⟨rfl, by simp [hall d List.mem_cons_self]⟩, hall⟩
  obtain ⟨htake, hdrop⟩ := span_of_ends (p := isNumberChar) (fun _ => not_isNumberChar_of_isBlank)
    (fun d hd => by rw [isNumberChar, hcs d hd, Bool.true_or]) hrest
  refine ⟨c, cs, hn, fun position => ?_⟩
  rw [lexeme_number hstarts, htake, hdrop, ← hn, String.ofList_toList, hread]
  rfl

theorem quoted_escaped (s rest : List Char) :
    Token.quoted '\x22' (s.flatMap escape ++ '\x22' :: rest) = .ok (s, rest) := by
  induction s with
  | nil => 
      show Token.quoted '\x22' ('\x22' :: rest) = _
      unfold Token.quoted
      rfl
  | cons c s ih =>
      rw [List.flatMap_cons, List.append_assoc, escape]
      split
      · next hc =>
          rw [List.cons_append, List.cons_append, List.nil_append, Token.quoted, if_pos rfl]
          exact map_eq_ok.mpr ⟨_, ih, rfl⟩
      · next hc =>
          rw [not_or] at hc
          rw [List.cons_append, List.nil_append]
          unfold Token.quoted
          rw [if_neg hc.2, if_neg hc.1]
          exact map_eq_ok.mpr ⟨_, ih, rfl⟩

theorem operator?_symbol {o : Comparison} (ho : o ∈ Comparison.signs) (hrest : Ends rest) :
    Token.operator? (o.symbol.toList ++ rest) = some (o, rest) := by
  have hequals : ∀ ds, rest ≠ '=' :: ds := by
    rintro ds rfl
    exact absurd (hrest '=' rfl) (by decide)
  have hgreater : ∀ ds, rest ≠ '>' :: ds := by
    rintro ds rfl
    exact absurd (hrest '>' rfl) (by decide)
  simp only [Comparison.signs, List.mem_cons, List.not_mem_nil, or_false] at ho
  -- only what is no sign by itself could be taken further
  rcases ho with rfl | rfl | rfl | rfl | rfl | rfl
  · show Token.operator? ('=' :: rest) = _
    unfold Token.operator?
    split <;> simp_all
  · rfl
  · show Token.operator? ('>' :: rest) = _
    unfold Token.operator?
    split <;> simp_all
  · rfl
  · show Token.operator? ('<' :: rest) = _
    unfold Token.operator?
    split <;> simp_all
  · rfl

theorem lexeme_sign {o : Comparison} (ho : o ∈ Comparison.signs) (hrest : Ends rest) :
    ∃ c cs, o.symbol.toList = c :: cs ∧
      ∀ position, lexeme position c (cs ++ rest) = .ok (some (.op o), rest) := by
  obtain ⟨c, cs, ho', hc⟩ : ∃ c cs, o.symbol.toList = c :: cs ∧ c ∈ ['=', '!', '<', '>'] := by
    cases o <;> first | exact ⟨_, _, rfl, by decide⟩ | exact absurd ho (by decide)
  have hoperator := operator?_symbol ho hrest
  rw [ho', List.cons_append] at hoperator
  refine ⟨c, cs, ho', fun position => ?_⟩
  simp only [List.mem_cons, List.not_mem_nil, or_false] at hc
  rcases hc with rfl | rfl | rfl | rfl <;> simp [lexeme, hoperator, Text.isBlank]

/-- A token that is spelled at the end or before a blank is read back as it is. -/
theorem lexeme_spelling {t : Token} (ht : Legible t) (hrest : Ends rest) :
    ∃ c cs, t.spelling = c :: cs ∧
      ∀ position, lexeme position c (cs ++ rest) = .ok (some t, rest) := by
  cases t with
  | word s =>
      obtain ⟨hs, hand, hor⟩ := ht
      have hword : ofWord s = .word s := by
        unfold ofWord
        split
        · next h => exact absurd h hand
        · next h => exact absurd h hor
        · rfl
      have hlexeme := lexeme_identifier hs hrest
      rw [hword] at hlexeme
      exact hlexeme
  | text s =>
      have hquoted := quoted_escaped s.toList rest
      refine ⟨'\x22', _, rfl, fun position => ?_⟩
      rw [List.append_assoc]
      refine map_eq_ok.mpr ⟨_, hquoted, ?_⟩
      simp
  | number n =>
      obtain ⟨i, rfl, hlow, hhigh⟩ := ht
      exact lexeme_integer hlow hhigh hrest
  | op o => exact lexeme_sign ht hrest
  | leftParen | rightParen | comma => exact ⟨_, [], rfl, fun _ => rfl⟩
  | and => exact lexeme_identifier (by decide : IsIdentifier "and") hrest
  | or => exact lexeme_identifier (by decide : IsIdentifier "or") hrest

/-- Spelled tokens with blanks in between scan into these tokens. -/
theorem scans_of_spaced {ts : List Token} {cs : List Char} (hts : ∀ t ∈ ts, Legible t)
    (h : Spaced (ts.map spelling) cs) : Scans cs ts := by
  induction ts generalizing cs with
  | nil => cases h
  | cons t ts ih =>
      rw [List.forall_mem_cons] at hts
      cases ts with
      | nil =>
          cases h with
          | one =>
              have hends : Ends [] := nofun
              obtain ⟨c, cs, hspelling, hlexeme⟩ := lexeme_spelling hts.1 hends
              rw [hspelling]
              rw [List.append_nil] at hlexeme
              exact .cons hlexeme .nil
          | more _ _ _ hrest => cases hrest
      | cons u us =>
          cases h with
          | @more _ gap _ rest hgap hblank hrest =>
              have hends : Ends (gap ++ rest) := by
                intro c hc
                cases gap with
                | nil => exact absurd rfl hgap
                | cons d gap =>
                    have hc : d = c := by simpa using hc
                    exact hc ▸ hblank d List.mem_cons_self
              obtain ⟨c, cs, hspelling, hlexeme⟩ := lexeme_spelling hts.1 hends
              rw [hspelling]
              exact .cons hlexeme (.blanks hblank (ih hts.2 hrest))

end Query

end Grove
