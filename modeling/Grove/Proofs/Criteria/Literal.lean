import Grove.Proofs.Criteria.Formula
import Grove.Proofs.Criteria.Like
import Grove.Proofs.Regex.Literal
import Grove.Proofs.Sql.Lowering

/-!
# Plain text between percent signs

Where every character of the expression means itself, a `like` asks for the text itself: somewhere
in the field, at its start, at its end, or as all of it. It is refused only for the size of its
compiled form (`like_plain_iff`).
-/

namespace Grove

open Matcher (fieldAt)
open Regex (IsPlain bounded boundedLetters)

namespace Criteria

/-- The words stand in the text: anywhere, or where it starts or ends if nothing may be before or
after them. -/
def StandsIn (before after : Bool) (words text : String) : Prop :=
  match before, after with
  | true, true => words.toList <:+: text.toList
  | true, false => words.toList <:+ text.toList
  | false, true => words.toList <+: text.toList
  | false, false => text = words

theorem standsIn_iff {before after : Bool} {words text : String} :
    StandsIn before after words text ↔
      ∃ front back, front ++ words.toList ++ back = text.toList ∧
        ((!before) = true → front = []) ∧ ((!after) = true → back = []) := by
  cases before with
  | true =>
      cases after with
      | true => simp [StandsIn, List.IsInfix]
      | false => simp [StandsIn, List.IsSuffix]
  | false =>
      cases after with
      | true => simp [StandsIn, List.IsPrefix]
      | false => simp [StandsIn, eq_comm, ← String.toList_inj]

variable {before after : Bool} {field text words : String}

/-- The signs become conditions, and of a sign alone one is left, which asks for nothing. -/
theorem exists_bounded_likePattern (hbare : IsBare words) :
    ∃ atStart atEnd,
      likePattern (likeText before after words) =
        String.ofList (bounded atStart atEnd words.toList) ∧
      (words = "" ∨ atStart = !before ∧ atEnd = !after) ∧
      ∀ text : String, (∃ front back, front ++ words.toList ++ back = text.toList ∧
        (atStart = true → front = []) ∧ (atEnd = true → back = [])) ↔
          StandsIn before after words text := by
  by_cases hsign : words = "" → before = false → after = false
  · exact ⟨!before, !after, likePattern_likeText hbare hsign, .inr ⟨rfl, rfl⟩,
      fun text => standsIn_iff.symm⟩
  · simp only [Classical.not_imp, Bool.not_eq_false] at hsign
    obtain ⟨rfl, rfl, rfl⟩ := hsign
    refine ⟨false, true, by decide +kernel, .inl rfl, fun text =>
      iff_of_true ?_ (List.nil_prefix)⟩
    exact ⟨text.toList, [], by simp, nofun, fun _ => rfl⟩

/-- What a `like` of plain words takes in its compiled form, in bytes, if there are any words. -/
def plainSize (before after : Bool) (words : String) : Nat :=
  Regex.lettersSize (!before) (!after) words.utf8ByteSize

/-- Plain words are too many for an expression, or one that matches where they stand. -/
theorem exists_parse_plain (before after : Bool) (hbare : IsBare words)
    (hplain : IsPlain words.toList) :
    ∃ r : Regex, (Regex.parse (likePattern (likeText before after words)) =
        if RegexError.sizeLimit < plainSize before after words then .error .tooLarge else .ok r) ∧
      ∀ t, r.isMatch t = true ↔ StandsIn before after words t := by
  obtain ⟨atStart, atEnd, hpattern, hsigns, hstands⟩ :=
    exists_bounded_likePattern hbare
  refine ⟨_, ?_, fun t => Regex.isMatch_boundedLetters.trans (hstands t)⟩
  rw [hpattern, Regex.parse_bounded_plain hplain, String.ofList_toList]
  obtain rfl | ⟨rfl, rfl⟩ := hsigns
  · have hsmall : ∀ s e : Bool,
        ¬RegexError.sizeLimit < Regex.lettersSize s e "".utf8ByteSize := by decide
    rw [if_neg (hsmall _ _), plainSize, if_neg (hsmall _ _)]
  · rfl

/-! ## In both dialects -/

theorem filter_like {r : Regex} (hname : checkName field = .ok ())
    (hparse : Regex.parse (likePattern text) = .ok r) :
    Criteria.filter (some (.compare .like field (.string text))) =
      .ok (.object [(field, .object [("$regex", .string (likePattern text))])]) := by
  rw [Criteria.filter, checkHeight_compare]
  simp only [toFilter, hname, fieldCheck, readLike, hparse]
  rfl

theorem condition_like {r : Regex} (hname : checkName field = .ok ())
    (hflat : Text.has field '.' = false) (hparse : Regex.parse (likePattern text) = .ok r) :
    condition (some (.compare .like field (.string text))) =
      .ok (.test field .matchesPattern (.string (likePattern text))) := by
  rw [condition, checkHeight_compare]
  simp only [lowerCondition, hname, hflat, flatCondition, readLike, hparse]
  rfl

theorem condition_like_error {e : RegexError} (hname : checkName field = .ok ())
    (hflat : Text.has field '.' = false) (hparse : Regex.parse (likePattern text) = .error e) :
    condition (some (.compare .like field (.string text))) =
      .error (.badPattern text e.message) := by
  rw [condition, checkHeight_compare]
  simp only [lowerCondition, hname, hflat, flatCondition, readLike, hparse]
  rfl

/-- Into a column no pattern is put. -/
theorem condition_like_ne_ok (hdotted : Text.has field '.' = true) (w : Sql.Condition) :
    condition (some (.compare .like field (.string text))) ≠ .ok w := by
  intro h
  obtain ⟨⟨⟩, -, hlower⟩ := bind_eq_ok.mp h
  rw [lowerCondition] at hlower
  obtain ⟨⟨⟩, -, hnested⟩ := bind_eq_ok.mp hlower
  rw [if_pos hdotted] at hnested
  obtain ⟨-, -, ⟨hop, -⟩ | ⟨hop, -⟩⟩ := nestedCondition_eq_ok hnested <;> cases hop

/-- A `like` of plain words is refused if they are too many, by both dialects. Otherwise it accepts
the records whose field has a text with these words where the signs say, and the pattern of the
filter is the parameter of the condition. -/
theorem like_plain_iff (before after : Bool) (hname : checkName field = .ok ())
    (hbare : IsBare words) (hplain : IsPlain words.toList) :
    let criteria : Criteria := .compare .like field (.string (likeText before after words))
    let pattern := likePattern (likeText before after words)
    let refusal := CriteriaError.badPattern (likeText before after words)
      RegexError.tooLarge.message
    (plainSize before after words ≤ RegexError.sizeLimit →
      (∃ m, Matcher.ofCriteria (some criteria) = .ok m ∧ ∀ record, m.accepts record = true ↔
        ∃ v t, fieldAt record (Text.split '.' field) = some v ∧ v.HasText t ∧
          StandsIn before after words t) ∧
      Criteria.filter (some criteria) =
        .ok (.object [(field, .object [("$regex", .string pattern)])]) ∧
      (Text.has field '.' = false →
        ∃ w, condition (some criteria) = .ok w ∧ w.expression =
          [.word "CAST(", .name field, .word " AS TEXT) ~ ", .parameter (.string pattern) none])) ∧
    (RegexError.sizeLimit < plainSize before after words →
      Matcher.ofCriteria (some criteria) = .error (.ofCriteria refusal) ∧
      (Text.has field '.' = false → condition (some criteria) = .error refusal)) ∧
    (Text.has field '.' = true → ∀ w, condition (some criteria) ≠ .ok w) := by
  intro criteria pattern refusal
  obtain ⟨r, hparse, hmatch⟩ := exists_parse_plain before after hbare hplain
  refine ⟨fun hfits => ?_, fun hlarge => ?_, fun hdotted => condition_like_ne_ok hdotted⟩
  · rw [if_neg (Nat.not_lt.mpr hfits)] at hparse
    refine ⟨⟨_, ofCriteria_like hname hparse, fun record => ?_⟩, filter_like hname hparse,
      fun hflat => ⟨_, condition_like hname hflat hparse, rfl⟩⟩
    rw [accepts_matchesPattern]
    simp only [hmatch, Option.bind_eq_some_iff, ← Json.hasText_iff]
    constructor
    · rintro ⟨t, ⟨v, hv, htext⟩, hstands⟩
      exact ⟨v, t, hv, htext, hstands⟩
    · rintro ⟨v, t, hv, htext, hstands⟩
      exact ⟨t, ⟨v, hv, htext⟩, hstands⟩
  · rw [if_pos hlarge] at hparse
    exact ⟨ofCriteria_like_error hname hparse, fun hflat => condition_like_error hname hflat hparse⟩

/-- Words of several lines and with a sign inside are words like others. -/
theorem like_plain_iff_lines :
    checkName "k" = .ok () ∧ IsBare "5%\né" ∧ IsPlain "5%\né".toList ∧
    plainSize true false "5%\né" ≤ RegexError.sizeLimit ∧
    ∃ m, Matcher.ofCriteria (some (.compare .like "k" (.string "%5%\né"))) = .ok m ∧
      m.accepts ⟨[("k", .string "x5%\né")]⟩ = true ∧
      m.accepts ⟨[("k", .string "5%\nék")]⟩ = false ∧
      ∃ w, condition (some (.compare .like "k" (.string "%5%\né"))) = .ok w ∧
        w.expression = [.word "CAST(", .name "k", .word " AS TEXT) ~ ",
          .parameter (.string "5%\né$") none] := by
  have hname : checkName "k" = .ok () := by decide +kernel
  have hbare : IsBare "5%\né" := ⟨by decide +kernel, by decide +kernel⟩
  have hplain : IsPlain "5%\né".toList := by decide +kernel
  have hsize : plainSize true false "5%\né" ≤ RegexError.sizeLimit := by decide +kernel
  obtain ⟨hfits, -, -⟩ := like_plain_iff true false hname hbare hplain
  obtain ⟨⟨m, hm, haccepts⟩, -, hcondition⟩ := hfits hsize
  refine ⟨hname, hbare, hplain, hsize, m, hm, ?_, ?_, hcondition (by decide +kernel)⟩
  · exact (haccepts _).mpr ⟨_, _, rfl, .string _, ['x'], rfl⟩
  · rw [Bool.eq_false_iff]
    intro h
    obtain ⟨v, t, hv, htext, hends⟩ := (haccepts _).mp h
    cases hv
    cases htext
    revert hends
    rw [StandsIn]
    decide +kernel

/-- A text is not found by its own words if these are too many, and into a column no pattern is
put at all. -/
theorem words_too_many_for_like :
    let words := String.ofList (List.replicate 500000 'a')
    IsBare words ∧ IsPlain words.toList ∧ StandsIn false false words words ∧
    (∀ m, Matcher.ofCriteria
      (some (.compare .like "k" (.string (likeText false false words)))) ≠ .ok m) ∧
    ∀ w, condition (some (.compare .like "a.b" (.string "x"))) ≠ .ok w := by
  intro words
  have hletters : ∀ c ∈ words.toList, c = 'a' := by
    intro c hc
    rw [String.toList_ofList] at hc
    exact List.eq_of_mem_replicate hc
  have hbare : IsBare words :=
    ⟨fun h => absurd (hletters _ (List.mem_of_mem_head? h)) (by decide),
      fun h => absurd (hletters _ (List.mem_of_getLast? h)) (by decide)⟩
  have hplain : IsPlain words.toList := by
    intro c hc
    rw [hletters c hc]
    decide
  have hbytes : ∀ n, (String.ofList (List.replicate n 'a')).utf8ByteSize = n := by
    intro n
    induction n with
    | zero => rfl
    | succ n ih =>
        have ha : 'a'.utf8Size = 1 := rfl
        rw [List.replicate_succ, String.ofList_cons, String.utf8ByteSize_append, ih,
          String.utf8ByteSize_singleton, ha, Nat.add_comm]
  obtain ⟨r, hparse, -⟩ := exists_parse_plain false false hbare hplain
  have hlarge : RegexError.sizeLimit < plainSize false false words := by
    rw [plainSize, hbytes]
    decide
  rw [if_pos hlarge] at hparse
  refine ⟨hbare, hplain, rfl, fun m hm => ?_, condition_like_ne_ok (by decide +kernel)⟩
  cases (ofCriteria_like_error (by decide +kernel) hparse).symm.trans hm

end Criteria

end Grove
