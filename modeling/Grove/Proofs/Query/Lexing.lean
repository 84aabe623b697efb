import Mathlib.Data.List.TakeWhile
import Grove.Proofs.Outcome
import Grove.Proofs.Query.Grammar

/-!
# What a text is scanned into

The scanner takes one lexeme after another off the text. Two things are said of a lexeme,
and what a whole text scans into follows by induction on the lexemes: it is a token of the
grammar's alphabet, and it leaves no more than what stood behind its first character. The
second is why the length of the text covers the scan, and so why a scan that succeeds has
read the text to its end.
-/

namespace Grove.Query

open Token (lexeme scanFrom scan operator? ofWord isWordStart isWordChar isNumberChar readNumber)

variable {position total fuel : Nat} {c : Char} {cs rest : List Char} {t : Option Token}
  {ts : List Token}

/-! ## One lexeme -/

/-- A word that scans as one is an identifier and no connective. -/
theorem lexical_ofWord {u : Token} (hc : isWordStart c = true)
    (hcs : ∀ d ∈ cs, isWordChar d = true) (hu : ofWord (String.ofList (c :: cs)) = u) :
    Lexical u := by
  rw [ofWord] at hu
  split at hu
  · cases hu
    trivial
  · cases hu
    trivial
  · next hand hor =>
      cases hu
      refine ⟨⟨c, cs, String.toList_ofList, ?_, fun d hd => ?_⟩, hand, hor⟩
      · simpa [isWordStart] using hc
      · simpa [isWordChar, or_assoc] using hcs d hd

theorem operator?_eq_some {o : Comparison} (h : operator? cs = some (o, rest)) :
    o ∈ Comparison.signs ∧ rest.length < cs.length := by
  unfold operator? at h
  split at h <;> cases h <;>
    exact ⟨List.mem_of_elem_eq_true rfl, by simp only [List.length_cons]; omega⟩

theorem quoted_length_lt {quote : Char} {body : List Char}
    (h : Token.quoted quote cs = .ok (body, rest)) : rest.length < cs.length := by
  induction cs using Token.quoted.induct quote generalizing body rest with
  | case1 => cases h
  | case2 => simp [Token.quoted] at h
  | case3 d ds ih =>
      rw [Token.quoted, if_pos rfl] at h
      obtain ⟨⟨body', rest'⟩, hbody, hrest⟩ := map_eq_ok.mp h
      cases hrest
      have := ih hbody
      simp only [List.length_cons]
      omega
  | case4 cs hc =>
      rw [Token.quoted.eq_def] at h
      simp [hc] at h
      simp [h]
  | case5 c cs hslash hquote ih =>
      rw [Token.quoted.eq_def] at h
      simp only [if_neg hslash, if_neg hquote] at h
      obtain ⟨⟨body', rest'⟩, hbody, hrest⟩ := map_eq_ok.mp h
      cases hrest
      exact Nat.lt_succ_of_lt (ih hbody)

/-- A lexeme is a token of the alphabet or a blank, and it is not empty. -/
theorem lexeme_eq_ok (h : lexeme position c cs = .ok (t, rest)) :
    (∀ u ∈ t, Lexical u) ∧ rest.length ≤ cs.length := by
  unfold lexeme at h
  split at h
  · cases h
    exact ⟨by simp, Nat.le_refl _⟩
  split at h
  · cases h
    exact ⟨by simp [Lexical], Nat.le_refl _⟩
  split at h
  · cases h
    exact ⟨by simp [Lexical], Nat.le_refl _⟩
  split at h
  · cases h
    exact ⟨by simp [Lexical], Nat.le_refl _⟩
  split at h
  · split at h
    · next d rest' =>
        split at h
        · cases h
          refine ⟨fun u hu => ?_, by simp⟩
          cases hu
          split <;> trivial
        · cases h
    · cases h
  split at h
  · split at h
    · next o rest' hoperator =>
        cases h
        obtain ⟨hsign, hlength⟩ := operator?_eq_some hoperator
        exact ⟨by simpa [Lexical] using hsign, Nat.le_of_lt_succ hlength⟩
    · cases h
  split at h
  · obtain ⟨⟨body, rest'⟩, hbody, hrest⟩ := map_eq_ok.mp h
    cases hrest
    exact ⟨by simp [Lexical], Nat.le_of_lt (quoted_length_lt hbody)⟩
  split at h
  · obtain ⟨n, -, hn⟩ := map_eq_ok.mp h
    cases hn
    exact ⟨by simp [Lexical], (List.dropWhile_suffix _).length_le⟩
  split at h
  · next hc =>
      have hchars : ∀ d ∈ cs.takeWhile isWordChar, isWordChar d = true :=
        fun _ hd => List.mem_takeWhile_imp hd
      cases h
      exact ⟨fun u hu => lexical_ofWord hc hchars (Option.mem_some.mp hu),
        (List.dropWhile_suffix _).length_le⟩
  · cases h

/-! ## A whole text -/

/-- The scanner's equation for a text that is not empty. -/
theorem scanFrom_eq_ok (h : scanFrom total (fuel + 1) (c :: cs) = .ok ts) :
    ∃ t rest ts', lexeme (total - (cs.length + 1)) c cs = .ok (t, rest) ∧
      scanFrom total fuel rest = .ok ts' ∧ ts = t.toList ++ ts' := by
  rw [scanFrom] at h
  obtain ⟨⟨t, rest⟩, hlexeme, h⟩ := bind_eq_ok.mp h
  obtain ⟨ts', hts, h⟩ := bind_eq_ok.mp h
  refine ⟨t, rest, ts', hlexeme, hts, ?_⟩
  cases t <;> cases h <;> rfl

theorem lexical_of_scanFrom (h : scanFrom total fuel cs = .ok ts) : ∀ t ∈ ts, Lexical t := by
  induction fuel generalizing cs ts with
  | zero =>
      cases h
      exact fun _ ht => absurd ht List.not_mem_nil
  | succ fuel ih =>
      cases cs with
      | nil =>
          cases h
          exact fun _ ht => absurd ht List.not_mem_nil
      | cons c cs =>
          obtain ⟨t, rest, ts', hlexeme, hrest, rfl⟩ := scanFrom_eq_ok h
          intro u hu
          rcases List.mem_append.mp hu with hu | hu
          · exact (lexeme_eq_ok hlexeme).1 u (Option.mem_toList.mp hu)
          · exact ih hrest u hu

/-- A text scans into tokens of the alphabet. -/
theorem lexical_of_scan {q : String} (h : scan q = .ok ts) : ∀ t ∈ ts, Lexical t :=
  lexical_of_scanFrom h

/-- The text scans into the tokens, wherever it stands in a query. -/
def Scans (cs : List Char) (ts : List Token) : Prop :=
  ∀ total fuel, cs.length ≤ fuel → scanFrom total fuel cs = .ok ts

theorem Scans.nil : Scans [] [] := fun _ fuel _ => by cases fuel <;> rfl

theorem Scans.cons (hlexeme : ∀ position, lexeme position c cs = .ok (t, rest))
    (hrest : Scans rest ts) : Scans (c :: cs) (t.toList ++ ts) := by
  intro total fuel hfuel
  cases fuel with
  | zero => simp at hfuel
  | succ fuel =>
      have hlength : rest.length ≤ cs.length := (lexeme_eq_ok (hlexeme 0)).2
      simp only [List.length_cons] at hfuel
      have htokens := hrest total fuel (by omega)
      rw [scanFrom]
      refine bind_eq_ok.mpr ⟨(t, rest), hlexeme _, bind_eq_ok.mpr ⟨ts, htokens, ?_⟩⟩
      cases t <;> rfl

theorem lexeme_blank (hc : Text.isBlank c = true) (position : Nat) :
    lexeme position c cs = .ok (none, cs) := by
  unfold lexeme
  rw [if_pos hc]

theorem Scans.blanks {gap : List Char} (hgap : ∀ c ∈ gap, Text.isBlank c = true)
    (hrest : Scans rest ts) : Scans (gap ++ rest) ts := by
  induction gap with
  | nil => exact hrest
  | cons c gap ih =>
      obtain ⟨hc, hgap⟩ := List.forall_mem_cons.mp hgap
      exact .cons (lexeme_blank hc) (ih hgap)

theorem Scans.scan {q : String} (h : Scans q.toList ts) : scan q = .ok ts :=
  h _ _ (Nat.le_refl _)

end Grove.Query
