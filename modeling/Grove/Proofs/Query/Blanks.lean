import Grove.Proofs.Query.Parsing
import Grove.Proofs.Query.Spelling
import Grove.Proofs.Text.Trim

/-!
# Blanks around a query

Blanks before and after a query say nothing: it is read as it is read without them. Before the
query they are lexemes of their own. After it they matter to every lexeme that might have gone
on, and none does, because no lexeme goes on into a blank (`lexeme_before_blanks`). What is no
lexeme does not become one by the blanks behind it either (`lexeme_error_before_blanks`), so a
query is refused with them if it is refused without them. Positions change, but only a refusal
shows them.
-/

namespace Grove

namespace Query

open Token (lexeme scanFrom scan operator? isWordStart isWordChar isNumberChar)

variable {position : Nat} {c : Char} {cs rest gap : List Char} {t : Option Token}
  {ts : List Token}

/-! ## One lexeme before blanks -/

/-- Characters of a class that has no blanks are taken as far as before. -/
theorem span_append_blanks {p : Char → Bool} (hp : ∀ c, Text.isBlank c = true → p c = false)
    (hgap : ∀ c ∈ gap, Text.isBlank c = true) (cs : List Char) :
    (cs ++ gap).takeWhile p = cs.takeWhile p ∧
      (cs ++ gap).dropWhile p = cs.dropWhile p ++ gap := by
  have hends : Ends gap := fun c hc => hgap c (List.mem_of_mem_head? hc)
  induction cs with
  | nil => exact span_of_ends hp (List.forall_mem_nil _) hends
  | cons c cs ih =>
      cases hc : p c with
      | true => simp [hc, ih]
      | false => simp [hc]

/-- What a text does not start with, it does not start with before blanks either. -/
theorem append_ne_cons {d : Char} (hd : Text.isBlank d = false)
    (hgap : ∀ c ∈ gap, Text.isBlank c = true) (hcs : ∀ ds, cs ≠ d :: ds) (ds : List Char) :
    cs ++ gap ≠ d :: ds := by
  cases cs with
  | nil =>
      rintro rfl
      have hblank := hgap d List.mem_cons_self
      rw [hd] at hblank
      cases hblank
  | cons c cs =>
      intro heq
      cases heq
      exact hcs cs rfl

theorem head?_any_isDigit_append (hgap : ∀ c ∈ gap, Text.isBlank c = true) (cs : List Char) :
    (cs ++ gap).head?.any Char.isDigit = cs.head?.any Char.isDigit := by
  cases cs with
  | cons c cs => rfl
  | nil =>
      cases gap with
      | nil => rfl
      | cons c gap =>
          have hnumber := not_isNumberChar_of_isBlank (hgap c List.mem_cons_self)
          rw [isNumberChar, Bool.or_eq_false_iff] at hnumber
          exact hnumber.1

theorem operator?_before_blanks {o : Comparison} (hgap : ∀ c ∈ gap, Text.isBlank c = true)
    (h : operator? cs = some (o, rest)) : operator? (cs ++ gap) = some (o, rest ++ gap) := by
  unfold operator? at h
  split at h <;> cases h
  · rfl
  · next hequals =>
      have hnext := append_ne_cons (by decide) hgap hequals
      rw [List.cons_append]
      unfold operator?
      split <;> simp_all
  · rfl
  · rfl
  · rfl
  · next hgreater hequals =>
      have hnext := append_ne_cons (by decide) hgap hgreater
      have hnext' := append_ne_cons (by decide) hgap hequals
      rw [List.cons_append]
      unfold operator?
      split <;> simp_all
  · rfl
  · next hequals =>
      have hnext := append_ne_cons (by decide) hgap hequals
      rw [List.cons_append]
      unfold operator?
      split <;> simp_all

theorem quoted_append {quote : Char} {body : List Char}
    (h : Token.quoted quote cs = .ok (body, rest)) (gap : List Char) :
    Token.quoted quote (cs ++ gap) = .ok (body, rest ++ gap) := by
  induction cs using Token.quoted.induct quote generalizing body rest with
  | case1 => cases h
  | case2 => simp [Token.quoted] at h
  | case3 d ds ih =>
      rw [Token.quoted, if_pos rfl] at h
      obtain ⟨⟨body', rest'⟩, hbody, hrest⟩ := map_eq_ok.mp h
      cases hrest
      rw [List.cons_append, List.cons_append, Token.quoted, if_pos rfl]
      exact map_eq_ok.mpr ⟨_, ih hbody, rfl⟩
  | case4 cs hc =>
      rw [Token.quoted.eq_def] at h
      obtain ⟨rfl, rfl⟩ : [] = body ∧ cs = rest := by simpa [hc] using h
      rw [List.cons_append, Token.quoted.eq_def]
      simp [hc]
  | case5 c cs hslash hquote ih =>
      rw [Token.quoted.eq_def] at h
      simp only [if_neg hslash, if_neg hquote] at h
      obtain ⟨⟨body', rest'⟩, hbody, hrest⟩ := map_eq_ok.mp h
      cases hrest
      rw [List.cons_append, Token.quoted.eq_def]
      simp only [if_neg hslash, if_neg hquote]
      exact map_eq_ok.mpr ⟨_, ih hbody, rfl⟩

/-- A lexeme is the same before blanks, and at any position. -/
theorem lexeme_before_blanks (hgap : ∀ c ∈ gap, Text.isBlank c = true)
    (h : lexeme position c cs = .ok (t, rest)) (position' : Nat) :
    lexeme position' c (cs ++ gap) = .ok (t, rest ++ gap) := by
  obtain ⟨htakeNumber, hdropNumber⟩ :=
    span_append_blanks (p := isNumberChar) (fun _ => not_isNumberChar_of_isBlank) hgap cs
  obtain ⟨htakeWord, hdropWord⟩ :=
    span_append_blanks (p := isWordChar) (fun _ => not_isWordChar_of_isBlank) hgap cs
  have hdigit := head?_any_isDigit_append hgap cs
  unfold lexeme at h ⊢
  rw [htakeNumber, hdropNumber, htakeWord, hdropWord, hdigit]
  -- The first character chooses the kind of lexeme, and it is the same character in both.
  by_cases hblank : Text.isBlank c = true
  · rw [if_pos hblank] at h ⊢
    cases h
    rfl
  rw [if_neg hblank] at h ⊢
  by_cases hleft : c = '('
  · rw [if_pos hleft] at h ⊢
    cases h
    rfl
  rw [if_neg hleft] at h ⊢
  by_cases hright : c = ')'
  · rw [if_pos hright] at h ⊢
    cases h
    rfl
  rw [if_neg hright] at h ⊢
  by_cases hcomma : c = ','
  · rw [if_pos hcomma] at h ⊢
    cases h
    rfl
  rw [if_neg hcomma] at h ⊢
  by_cases hconnective : (c = '&' || c = '|') = true
  · rw [if_pos hconnective] at h ⊢
    cases cs with
    | nil => cases h
    | cons d rest' =>
        rw [List.cons_append]
        by_cases hd : d = c
        · simp only [if_pos hd] at h ⊢
          cases h
          rfl
        · simp only [if_neg hd] at h
          cases h
  rw [if_neg hconnective] at h ⊢
  by_cases hoperator : (c = '=' || c = '!' || c = '<' || c = '>') = true
  · rw [if_pos hoperator] at h ⊢
    cases ho : operator? (c :: cs) with
    | none => simp [ho] at h
    | some found =>
        simp only [ho] at h
        cases h
        have hfound := operator?_before_blanks hgap ho
        rw [List.cons_append] at hfound
        rw [hfound]
  rw [if_neg hoperator] at h ⊢
  by_cases hquote : (c = '\x22' || c = '\x27') = true
  · rw [if_pos hquote] at h ⊢
    obtain ⟨⟨body, rest'⟩, hbody, hrest⟩ := map_eq_ok.mp h
    cases hrest
    exact map_eq_ok.mpr ⟨_, quoted_append hbody gap, rfl⟩
  rw [if_neg hquote] at h ⊢
  by_cases hnumber : (c.isDigit || (c = '-' && cs.head?.any Char.isDigit)) = true
  · rw [if_pos hnumber] at h ⊢
    obtain ⟨n, hn, hrest⟩ := map_eq_ok.mp h
    cases hrest
    exact map_eq_ok.mpr ⟨n, hn, rfl⟩
  rw [if_neg hnumber] at h ⊢
  by_cases hword : isWordStart c = true
  · rw [if_pos hword] at h ⊢
    cases h
    rfl
  · rw [if_neg hword] at h
    cases h

/-! ## What is no lexeme -/

theorem operator?_none_before_blanks (hgap : ∀ c ∈ gap, Text.isBlank c = true)
    (hc : (c = '=' || c = '!' || c = '<' || c = '>') = true) (h : operator? (c :: cs) = none) :
    operator? (c :: (cs ++ gap)) = none := by
  unfold operator? at h
  split at h <;> cases h
  · next hequals hequal hne hlt hle hgt hge hlast =>
      have hbang : c = '!' := by simp_all
      have hnext : ∀ ds, cs ≠ '=' :: ds := by simp_all
      have hthere := append_ne_cons (by decide) hgap hnext
      subst hbang
      unfold operator?
      split <;> simp_all

/-- Blanks do not close a text. -/
theorem quoted_blanks {quote : Char} (hquote : Text.isBlank quote = false)
    (hgap : ∀ c ∈ gap, Text.isBlank c = true) :
    Token.quoted quote gap = .error .unterminatedText := by
  induction gap with
  | nil => rfl
  | cons c gap ih =>
      obtain ⟨hc, hrest⟩ := List.forall_mem_cons.mp hgap
      rw [Token.quoted.eq_def]
      simp only [if_neg (ne_of_isBlank hc (by decide : Text.isBlank '\\' = false)),
        if_neg (ne_of_isBlank hc hquote)]
      exact map_eq_error.mpr (ih hrest)

theorem quoted_error_before_blanks {quote : Char} (hquote : Text.isBlank quote = false)
    (hgap : ∀ c ∈ gap, Text.isBlank c = true) {e : QueryError}
    (h : Token.quoted quote cs = .error e) : ∃ e', Token.quoted quote (cs ++ gap) = .error e' := by
  induction cs using Token.quoted.induct quote generalizing e with
  | case1 => exact ⟨_, quoted_blanks hquote hgap⟩
  | case2 =>
      cases gap with
      | nil => exact ⟨e, h⟩
      | cons d gap =>
          rw [List.cons_append, List.nil_append, Token.quoted, if_pos rfl]
          exact ⟨_, map_eq_error.mpr (quoted_blanks hquote (List.forall_mem_cons.mp hgap).2)⟩
  | case3 d ds ih =>
      rw [Token.quoted, if_pos rfl] at h
      obtain ⟨e', he'⟩ := ih (map_eq_error.mp h)
      rw [List.cons_append, List.cons_append, Token.quoted, if_pos rfl]
      exact ⟨e', map_eq_error.mpr he'⟩
  | case4 cs hc =>
      rw [Token.quoted.eq_def] at h
      simp [hc] at h
  | case5 c cs hslash hclose ih =>
      rw [Token.quoted.eq_def] at h
      simp only [if_neg hslash, if_neg hclose] at h
      obtain ⟨e', he'⟩ := ih (map_eq_error.mp h)
      rw [List.cons_append, Token.quoted.eq_def]
      simp only [if_neg hslash, if_neg hclose]
      exact ⟨e', map_eq_error.mpr he'⟩

/-- What is no lexeme is none before blanks either. -/
theorem lexeme_error_before_blanks (hgap : ∀ c ∈ gap, Text.isBlank c = true) {e : QueryError}
    (h : lexeme position c cs = .error e) (position' : Nat) :
    ∃ e', lexeme position' c (cs ++ gap) = .error e' := by
  obtain ⟨htakeNumber, hdropNumber⟩ :=
    span_append_blanks (p := isNumberChar) (fun _ => not_isNumberChar_of_isBlank) hgap cs
  have hdigit := head?_any_isDigit_append hgap cs
  unfold lexeme at h ⊢
  rw [htakeNumber, hdropNumber, hdigit]
  by_cases hblank : Text.isBlank c = true
  · rw [if_pos hblank] at h
    cases h
  rw [if_neg hblank] at h ⊢
  by_cases hleft : c = '('
  · rw [if_pos hleft] at h
    cases h
  rw [if_neg hleft] at h ⊢
  by_cases hright : c = ')'
  · rw [if_pos hright] at h
    cases h
  rw [if_neg hright] at h ⊢
  by_cases hcomma : c = ','
  · rw [if_pos hcomma] at h
    cases h
  rw [if_neg hcomma] at h ⊢
  by_cases hconnective : (c = '&' || c = '|') = true
  · rw [if_pos hconnective] at h ⊢
    have hnext : ∀ ds, cs ≠ c :: ds := by
      rintro ds rfl
      simp at h
    have hthere := append_ne_cons (by simpa using hblank) hgap hnext
    refine ⟨.unexpectedChar c position', ?_⟩
    split
    · next d rest hcs => exact if_neg fun hd : d = c => hthere rest (hd ▸ hcs)
    · rfl
  rw [if_neg hconnective] at h ⊢
  by_cases hoperator : (c = '=' || c = '!' || c = '<' || c = '>') = true
  · rw [if_pos hoperator] at h ⊢
    cases ho : operator? (c :: cs) with
    | some found => simp [ho] at h
    | none =>
        rw [operator?_none_before_blanks hgap hoperator ho]
        exact ⟨_, rfl⟩
  rw [if_neg hoperator] at h ⊢
  by_cases hquote : (c = '\x22' || c = '\x27') = true
  · rw [if_pos hquote] at h ⊢
    obtain ⟨e', he'⟩ :=
      quoted_error_before_blanks (by simpa using hblank) hgap (map_eq_error.mp h)
    exact ⟨e', map_eq_error.mpr he'⟩
  rw [if_neg hquote] at h ⊢
  by_cases hnumber : (c.isDigit || (c = '-' && cs.head?.any Char.isDigit)) = true
  · rw [if_pos hnumber] at h ⊢
    exact ⟨e, map_eq_error.mpr (map_eq_error.mp h)⟩
  rw [if_neg hnumber] at h ⊢
  by_cases hword : isWordStart c = true
  · rw [if_pos hword] at h
    cases h
  rw [if_neg hword]
  exact ⟨_, rfl⟩

/-! ## The whole query -/

theorem scans_before_blanks {total fuel : Nat} (hgap : ∀ c ∈ gap, Text.isBlank c = true)
    (hfuel : cs.length ≤ fuel) (h : scanFrom total fuel cs = .ok ts) : Scans (cs ++ gap) ts := by
  induction fuel generalizing cs ts with
  | zero =>
      obtain rfl := List.length_eq_zero_iff.mp (Nat.le_zero.mp hfuel)
      cases h
      simpa using Scans.blanks hgap .nil
  | succ fuel ih =>
      cases cs with
      | nil =>
          cases h
          simpa using Scans.blanks hgap .nil
      | cons c cs =>
          obtain ⟨t, rest, ts', hlexeme, hrest, rfl⟩ := scanFrom_eq_ok h
          have hlength := (lexeme_eq_ok hlexeme).2
          exact .cons (lexeme_before_blanks hgap hlexeme)
            (ih (by simp only [List.length_cons] at hfuel; omega) hrest)

theorem scan_of_trim {q : String} (h : scan (Text.trim q) = .ok ts) : scan q = .ok ts := by
  obtain ⟨lead, trail, hcs, hlead, htrail⟩ := Text.trimChars_eq q.toList
  have hchars : (Text.trim q).toList = Text.trimChars q.toList := String.toList_ofList
  have hinner : Scans (Text.trimChars q.toList ++ trail) ts := by
    rw [scan, hchars] at h
    exact scans_before_blanks htrail (Nat.le_refl _) h
  refine Scans.scan ?_
  rw [hcs]
  exact .blanks hlead hinner

/-- The text scans into nothing, wherever it stands in a query. -/
def Fails (cs : List Char) : Prop :=
  ∀ total fuel, cs.length ≤ fuel → ∃ e, scanFrom total fuel cs = .error e

theorem Fails.cons (hlexeme : ∀ position, lexeme position c cs = .ok (t, rest))
    (hrest : Fails rest) : Fails (c :: cs) := by
  intro total fuel hfuel
  cases fuel with
  | zero => simp at hfuel
  | succ fuel =>
      have hlength : rest.length ≤ cs.length := (lexeme_eq_ok (hlexeme 0)).2
      simp only [List.length_cons] at hfuel
      obtain ⟨e, he⟩ := hrest total fuel (by omega)
      rw [scanFrom]
      exact ⟨e, bind_eq_error.mpr (.inr ⟨_, hlexeme _, bind_eq_error.mpr (.inl he)⟩)⟩

theorem Fails.blanks (hgap : ∀ c ∈ gap, Text.isBlank c = true) (hrest : Fails rest) :
    Fails (gap ++ rest) := by
  induction gap with
  | nil => exact hrest
  | cons c gap ih =>
      obtain ⟨hc, hgap⟩ := List.forall_mem_cons.mp hgap
      exact .cons (lexeme_blank hc) (ih hgap)

theorem fails_before_blanks {total fuel : Nat} (hgap : ∀ c ∈ gap, Text.isBlank c = true)
    {e : QueryError} (h : scanFrom total fuel cs = .error e) : Fails (cs ++ gap) := by
  induction fuel generalizing cs with
  | zero => cases h
  | succ fuel ih =>
      cases cs with
      | nil => cases h
      | cons c cs =>
          rw [scanFrom] at h
          rcases bind_eq_error.mp h with hlexeme | ⟨⟨t, rest⟩, hlexeme, h⟩
          · intro total' fuel' hfuel
            cases fuel' with
            | zero => simp at hfuel
            | succ fuel' =>
                obtain ⟨e', he'⟩ := lexeme_error_before_blanks hgap hlexeme
                  (total' - ((cs ++ gap).length + 1))
                exact ⟨e', bind_eq_error.mpr (.inl he')⟩
          · refine .cons (lexeme_before_blanks hgap hlexeme) ?_
            rcases bind_eq_error.mp h with hrest | ⟨ts, -, h⟩
            · exact ih hrest
            · cases t <;> cases h

theorem scan_trim {q : String} (h : scan q = .ok ts) : scan (Text.trim q) = .ok ts := by
  cases htrim : scan (Text.trim q) with
  | ok us => rw [← scan_of_trim htrim, h]
  | error e =>
      obtain ⟨lead, trail, hcs, hlead, htrail⟩ := Text.trimChars_eq q.toList
      have hchars : (Text.trim q).toList = Text.trimChars q.toList := String.toList_ofList
      rw [scan, hchars] at htrim
      have hfails : Fails q.toList := by
        rw [hcs]
        exact .blanks hlead (fails_before_blanks htrail htrim)
      obtain ⟨e', he'⟩ := hfails q.toList.length q.toList.length (Nat.le_refl _)
      rw [scan, he'] at h
      cases h

theorem parse_of_trim {q : String} {c : Criteria} (h : parse (Text.trim q) = .ok c) :
    parse q = .ok c := by
  obtain ⟨ts, hscan, htokens⟩ := bind_eq_ok.mp h
  exact bind_eq_ok.mpr ⟨ts, scan_of_trim hscan, htokens⟩

/-- A query is read as it is read without the blanks around it. -/
theorem parse_trim_iff {q : String} {c : Criteria} :
    parse (Text.trim q) = .ok c ↔ parse q = .ok c := by
  refine ⟨parse_of_trim, fun h => ?_⟩
  obtain ⟨ts, hscan, htokens⟩ := bind_eq_ok.mp h
  exact bind_eq_ok.mpr ⟨ts, scan_trim hscan, htokens⟩

end Query
end Grove
