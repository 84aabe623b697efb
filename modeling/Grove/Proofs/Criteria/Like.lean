import Grove.Proofs.Criteria.Values
import Grove.Proofs.Regex.Anchors

/-!
# Percent signs and anchors

The constant of a `like` is an expression between percent signs, or without them. An end without
a sign is to be an end of the text, and for that a condition is written there. What it binds is
what the expression lets it bind: the first or the last of its alternatives, under the flags that
are in force at that end, and nothing where a comment reaches the end
(`like_binds_outer_alternatives`).
-/

namespace Grove

open Matcher (fieldAt)
open Regex (Reading bounded EndsInComment)

namespace Criteria

/-- The constant of a `like`, with a percent sign before the expression, or after it, or both. -/
def likeText (before after : Bool) (body : String) : String :=
  (if before then "%" else "") ++ body ++ (if after then "%" else "")

structure IsBare (body : String) : Prop where
  start : body.toList.head? ≠ some '%'
  ending : body.toList.getLast? ≠ some '%'

theorem toList_likeText (before after : Bool) (body : String) :
    (likeText before after body).toList =
      (if before then ['%'] else []) ++ body.toList ++ (if after then ['%'] else []) := by
  cases before <;> cases after <;> simp [likeText]

theorem percentSigns_of_head {cs : List Char} (h : cs.head? ≠ some '%') :
    percentSigns cs =
      if cs.getLast? = some '%' then (false, cs.dropLast, true) else (false, cs, false) := by
  unfold percentSigns
  split
  rename_i heq
  split at heq
  · exact (h rfl).elim
  · cases heq
    rfl

/-- The signs at the ends are told from the expression. One sign alone is one before it. -/
theorem percentSigns_likeText {before after : Bool} {body : String} (hbare : IsBare body)
    (hsign : body = "" → before = false → after = false) :
    percentSigns (likeText before after body).toList = (before, body.toList, after) := by
  rw [toList_likeText]
  cases before with
  | true =>
      change (if (body.toList ++ _).getLast? = some '%' then _ else _) = _
      cases after with
      | true => simp
      | false => simpa using hbare.ending
  | false =>
      cases after with
      | true =>
          have hne : body.toList ≠ [] := by
            intro hnil
            cases hsign (String.toList_eq_nil_iff.mp hnil) rfl
          have hstart : (body.toList ++ ['%']).head? ≠ some '%' := by
            rw [List.head?_append_of_ne_nil _ hne]
            exact hbare.start
          change percentSigns (body.toList ++ ['%']) = _
          rw [percentSigns_of_head hstart]
          simp
      | false =>
          change percentSigns (body.toList ++ []) = _
          rw [List.append_nil, percentSigns_of_head hbare.start, if_neg hbare.ending]

theorem likePattern_likeText {before after : Bool} {body : String} (hbare : IsBare body)
    (hsign : body = "" → before = false → after = false) :
    likePattern (likeText before after body) =
      String.ofList (bounded (!before) (!after) body.toList) := by
  rw [likePattern, percentSigns_likeText hbare hsign]
  cases before <;> cases after <;> rfl

/-! ## Compiled -/

variable {field text : String} {m : Matcher} {r : Regex}

theorem checkHeight_compare (op : Comparison) (field : String) (constant : Json) :
    (Criteria.compare op field constant).checkHeight = .ok () :=
  (checkHeight_eq_ok_iff _).mpr (by simp only [levels]; decide)

/-- A `like` whose expression can be read is put to the text of its field. -/
theorem ofCriteria_like (hname : checkName field = .ok ())
    (hparse : Regex.parse (likePattern text) = .ok r) :
    Matcher.ofCriteria (some (.compare .like field (.string text))) =
      .ok (.all [.field (Text.split '.' field) [.matchesPattern r]]) := by
  have hasked : fieldCheck .like (.string text) =
      .ok (.object [("$regex", .string (likePattern text))]) := by
    rw [fieldCheck, readLike, hparse]
    rfl
  have hcheck : FieldCheck.ofOperator "$regex" (.string (likePattern text)) =
      .ok (.matchesPattern r) := by
    rw [FieldCheck.ofOperator, hparse]
  rw [ofCriteria_compare hname hasked, fieldChecks_operation (by decide) hcheck]
  exact ⟨_, rfl, rfl⟩

theorem ofCriteria_like_error {e : RegexError} (hname : checkName field = .ok ())
    (hparse : Regex.parse (likePattern text) = .error e) :
    Matcher.ofCriteria (some (.compare .like field (.string text))) =
      .error (.ofCriteria (.badPattern text e.message)) := by
  have hasked : fieldCheck .like (.string text) = .error (.badPattern text e.message) := by
    rw [fieldCheck, readLike, hparse]
    rfl
  rw [Matcher.ofCriteria, Criteria.filter, checkHeight_compare]
  simp only [toFilter, hname, hasked]
  rfl

theorem ofCriteria_like_eq_ok
    (h : Matcher.ofCriteria (some (.compare .like field (.string text))) = .ok m) :
    ∃ r, Regex.parse (likePattern text) = .ok r ∧
      m = .all [.field (Text.split '.' field) [.matchesPattern r]] := by
  have hname : checkName field = .ok () := by
    have hcompiled := h
    unfold Matcher.ofCriteria at hcompiled
    split at hcompiled
    · cases hcompiled
    · rename_i hfilter
      obtain ⟨⟨⟩, -, hfilter⟩ := bind_eq_ok.mp hfilter
      obtain ⟨⟨⟩, hname, -⟩ := bind_eq_ok.mp hfilter
      exact hname
  cases hparse : Regex.parse (likePattern text) with
  | error e => cases (ofCriteria_like_error hname hparse).symm.trans h
  | ok r =>
      rw [ofCriteria_like hname hparse] at h
      exact ⟨r, rfl, (Except.ok.inj h).symm⟩

theorem accepts_matchesPattern (r : Regex) (record : Record) :
    (Matcher.all [.field (Text.split '.' field) [.matchesPattern r]]).accepts record = true ↔
      ∃ t, (fieldAt record (Text.split '.' field)).bind Json.patternText? = some t ∧
        r.isMatch t = true := by
  rw [accepts_field]
  simp only [List.all_cons, List.all_nil, Bool.and_true, FieldCheck.accepts]
  cases (fieldAt record (Text.split '.' field)).bind Json.patternText? with
  | none => simp
  | some t => simp

/-! ## Anchors -/

section

variable {before after : Bool} {body : String} {read : Reading}

theorem accepts_like_iff_of_signs (hbare : IsBare body)
    (hsign : body = "" → before = false → after = false) (hread : Regex.Reads body.toList read)
    (hm : Matcher.ofCriteria (some (.compare .like field (.string (likeText before after body)))) =
      .ok m) (record : Record) :
    m.accepts record = true ↔
      ∃ t, (fieldAt record (Text.split '.' field)).bind Json.patternText? = some t ∧
        read.MatchesBound (EndsInComment body.toList) before after t := by
  obtain ⟨regex, hparse, rfl⟩ := ofCriteria_like_eq_ok hm
  obtain ⟨s, hs, hleads⟩ := Regex.exists_reads_bounded hread (!before) (!after)
  obtain ⟨s', hs', rfl⟩ := Regex.exists_reads hparse
  rw [likePattern_likeText hbare hsign, String.toList_ofList] at hs'
  rw [accepts_matchesPattern, hs'.unique hs]
  simp only [Regex.isMatch_iff, hleads, Bool.not_eq_true', Reading.MatchesBound]

/-- An empty expression that is bound at one side only matches within every text. -/
theorem matchesBound_nil (hread : Regex.Reads [] read) (hsome : before = true ∨ after = true)
    (comment : Prop) (t : String) : read.MatchesBound comment before after t := by
  obtain ⟨⟨⟩, -⟩ := hread
  have hempty : Reading.start.alternatives = [.empty] := rfl
  simp only [Reading.MatchesBound, Reading.leadsWith_single hempty]
  cases before with
  | false => exact ⟨⟨[], t.toList⟩, _, rfl, rfl, fun _ => rfl, by simp [hsome.resolve_left]⟩
  | true =>
      exact ⟨⟨t.toList.reverse, []⟩, _, by simp [Cursor.text], rfl, nofun, fun _ _ => rfl⟩

/-- A record is accepted if an alternative of the expression matches in the text of its field:
the first alternative from the start of the text only, where no sign says otherwise, and the last
to an end only. -/
theorem accepts_like_iff (hbare : IsBare body) (hread : Regex.Reads body.toList read)
    (hm : Matcher.ofCriteria (some (.compare .like field (.string (likeText before after body)))) =
      .ok m) (record : Record) :
    m.accepts record = true ↔
      ∃ t, (fieldAt record (Text.split '.' field)).bind Json.patternText? = some t ∧
        read.MatchesBound (EndsInComment body.toList) before after t := by
  by_cases hsign : body = "" → before = false → after = false
  · exact accepts_like_iff_of_signs hbare hsign hread hm record
  · -- A single sign is read as one before the empty expression, which is everywhere either way.
    simp only [Classical.not_imp, Bool.not_eq_false] at hsign
    obtain ⟨rfl, rfl, rfl⟩ := hsign
    have hm' : Matcher.ofCriteria (some (.compare .like field (.string (likeText true false "")))) =
        .ok m := hm
    have hsign : "" = "" → true = false → false = false := fun _ _ => rfl
    rw [accepts_like_iff_of_signs hbare hsign hread hm' record]
    exact exists_congr fun t => and_congr_right fun _ =>
      iff_of_true (matchesBound_nil hread (.inl rfl) _ t) (matchesBound_nil hread (.inr rfl) _ t)

/-- The ends of the text bind the ends of the expression, and those are its first and its last
alternative. The last one ends where the flags that the expression leaves let a text end, and
nowhere in particular behind a comment, for which there is a number sign. So the expression is bound
as a whole if it is one alternative, leaves no such flag and no comment. -/
theorem like_binds_outer_alternatives {whole : Regex} (hbare : IsBare body)
    (hwhole : Regex.parse body = .ok whole)
    (hm : Matcher.ofCriteria (some (.compare .like field (.string (likeText before after body)))) =
      .ok m) :
    ∃ read : Reading, Regex.Reads body.toList read ∧ whole = Regex.oneOf read.alternatives ∧
      (EndsInComment body.toList → '#' ∈ body.toList) ∧
      (∀ record, m.accepts record = true ↔
        ∃ t, (fieldAt record (Text.split '.' field)).bind Json.patternText? = some t ∧
          read.MatchesBound (EndsInComment body.toList) before after t) ∧
      ((read.alternatives.length = 1 ∨ before = true ∧ after = true) →
        (after = false → read.flags.multiLine = false ∧ ¬EndsInComment body.toList) →
        ∀ record, m.accepts record = true ↔
          ∃ t, (fieldAt record (Text.split '.' field)).bind Json.patternText? = some t ∧
            whole.MatchesWithin before after t) := by
  obtain ⟨read, hread, hregex⟩ := Regex.exists_reads hwhole
  rw [Reading.regex_whole] at hregex
  have haccepts := accepts_like_iff hbare hread hm
  refine ⟨read, hread, hregex, Regex.hash_mem_of_endsInComment hread, haccepts,
    fun hbound hend record => (haccepts record).trans ?_⟩
  exact exists_congr fun t => and_congr_right fun _ =>
    Reading.matchesBound_iff hregex hbound hend t

end

/-- Alternatives in a group are one alternative, which is bound as a whole. -/
theorem like_binds_outer_alternatives_group :
    ∃ whole m, IsBare "(?:a|b)" ∧ Regex.parse "(?:a|b)" = .ok whole ∧
      Matcher.ofCriteria (some (.compare .like "k" (.string (likeText false false "(?:a|b)")))) =
        .ok m ∧
      m.accepts ⟨[("k", .string "b")]⟩ = true ∧
      ∀ record, m.accepts record = true ↔
        ∃ t, (fieldAt record (Text.split '.' "k")).bind Json.patternText? = some t ∧
          whole.MatchesWithin false false t := by
  have hbare : IsBare "(?:a|b)" := ⟨by decide +kernel, by decide +kernel⟩
  have hwhole : Regex.parse "(?:a|b)" =
      .ok (.alt (.chars ⟨[(97, 97)]⟩) (.chars ⟨[(98, 98)]⟩)) := rfl
  have hone : Regex.Reads "(?:a|b)".toList ⟨Regex.Flags.default, [],
      [⟨.alt (.chars ⟨[(97, 97)]⟩) (.chars ⟨[(98, 98)]⟩), 2, true⟩], [], []⟩ := ⟨rfl, rfl⟩
  obtain ⟨m, hm⟩ : ∃ m, Matcher.ofCriteria
      (some (.compare .like "k" (.string (likeText false false "(?:a|b)")))) = .ok m := ⟨_, rfl⟩
  have haccepts : m.accepts ⟨[("k", .string "b")]⟩ = true := by
    cases hm
    decide +kernel
  obtain ⟨read, hread, -, hhash, -, hagree⟩ := like_binds_outer_alternatives hbare hwhole hm
  cases hread.unique hone
  exact ⟨_, m, hbare, hwhole, hm, haccepts,
    hagree (.inl rfl) fun _ => ⟨rfl, fun h => absurd (hhash h) (by decide +kernel)⟩⟩

/-- The sign for the start of the text is before one alternative only, so a text may end in
anything that begins as that alternative does. -/
theorem alternative_unbound_at_end :
    ∃ whole m, IsBare "a|b" ∧ Regex.parse "a|b" = .ok whole ∧
      Matcher.ofCriteria (some (.compare .like "k" (.string (likeText false false "a|b")))) =
        .ok m ∧
      m.accepts ⟨[("k", .string "ax")]⟩ = true ∧ ¬whole.MatchesWithin false false "ax" := by
  refine ⟨_, _, ⟨by decide +kernel, by decide +kernel⟩, rfl, rfl, by decide +kernel, ?_⟩
  rintro ⟨c, d, htext, hleads, hstart, hend⟩
  have hafter : c.after = ['a', 'x'] := by
    have h := htext
    rw [Cursor.text, hstart rfl] at h
    exact h
  -- Either letter is one character, and the text has two.
  have hlength : d.after.length + 1 = c.after.length :=
    hleads.elim (fun h => (Cursor.text_step h).2) fun h => (Cursor.text_step h).2
  rw [hafter, hend rfl] at hlength
  cases hlength

end Criteria

end Grove
