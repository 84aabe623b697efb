import Grove.Proofs.Regex.Matching
import Grove.Proofs.Regex.Reader

/-!
# Conditions at the ends of a pattern

A condition written before a pattern becomes the first thing in its first alternative, and one
written behind it the last thing in its last alternative. So where a pattern has several
alternatives, neither is a condition on all of its matches, unless its alternatives are one.
-/

namespace Grove.Regex

open Reading (sequencePart)

theorem regex_sequencePart (ps : List Part) :
    (sequencePart ps).regex = sequence (ps.reverse.map (·.regex)) := by
  match ps with
  | [] => rfl
  | [p] => rfl
  | p :: q :: ps => rfl

namespace Reading

/-- What has been read of the innermost group: the alternatives from left to right. -/
def alternatives (r : Reading) : List Regex :=
  (sequencePart r.parts :: r.branches).reverse.map (·.regex)

theorem regex_whole (r : Reading) : r.whole.regex = oneOf r.alternatives := by
  unfold whole alternatives
  cases r.branches with
  | nil => rfl
  | cons b bs => rfl

/-- One of the alternatives leads from the one place to the other. The first of them is to start
as `first` says, and the last to end as `last` says. -/
def LeadsWith (r : Reading) (first last : Cursor → Prop) (c d : Cursor) : Prop :=
  ∃ i b, r.alternatives[i]? = some b ∧ b.Leads c d ∧ (i = 0 → first c) ∧
    (i + 1 = r.alternatives.length → last d)

theorem leads_whole {r : Reading} {c d : Cursor} :
    r.whole.regex.Leads c d ↔ r.LeadsWith (fun _ => True) (fun _ => True) c d := by
  have hne : r.alternatives ≠ [] := by simp [alternatives]
  rw [regex_whole, leads_oneOf hne]
  constructor
  · rintro ⟨b, hb, hleads⟩
    obtain ⟨i, hi⟩ := List.mem_iff_getElem?.mp hb
    exact ⟨i, b, hi, hleads, fun _ => trivial, fun _ => trivial⟩
  · rintro ⟨i, b, hi, hleads, -, -⟩
    exact ⟨b, List.mem_of_getElem? hi, hleads⟩

end Reading

theorem exists_getElem?_concat {bs : List Regex} {b : Regex} {P : Nat → Regex → Prop} :
    (∃ i b', (bs ++ [b])[i]? = some b' ∧ P i b') ↔
      (∃ i b', bs[i]? = some b' ∧ P i b') ∨ P bs.length b := by
  constructor
  · rintro ⟨i, b', hi, hP⟩
    rcases Nat.lt_trichotomy i bs.length with hless | rfl | hgreater
    · rw [List.getElem?_append_left hless] at hi
      exact .inl ⟨i, b', hi, hP⟩
    · rw [List.getElem?_concat_length] at hi
      cases hi
      exact .inr hP
    · rw [List.getElem?_eq_none (by simp; omega)] at hi
      cases hi
  · rintro (⟨i, b', hi, hP⟩ | hP)
    · have hless := (List.getElem?_eq_some_iff.mp hi).1
      exact ⟨i, b', (List.getElem?_append_left hless).trans hi, hP⟩
    · exact ⟨bs.length, b, List.getElem?_concat_length, hP⟩

theorem exists_getElem?_cons {bs : List Regex} {b : Regex} {P : Nat → Regex → Prop} :
    (∃ i b', (b :: bs)[i]? = some b' ∧ P i b') ↔
      P 0 b ∨ ∃ i b', bs[i]? = some b' ∧ P (i + 1) b' := by
  constructor
  · rintro ⟨_ | i, b', hi, hP⟩
    · cases hi
      exact .inl hP
    · exact .inr ⟨i, b', hi, hP⟩
  · rintro (hP | ⟨i, b', hi, hP⟩)
    · exact ⟨0, b, rfl, hP⟩
    · exact ⟨i + 1, b', hi, hP⟩

theorem Reading.leadsWith_single {r : Reading} {b : Regex} {first last : Cursor → Prop}
    {c d : Cursor} (h : r.alternatives = [b]) :
    r.LeadsWith first last c d ↔ b.Leads c d ∧ first c ∧ last d := by
  unfold LeadsWith
  rw [h, exists_getElem?_cons]
  simp

/-- The expression matches the whole text. A side that is open may have more of the text. -/
def MatchesWithin (r : Regex) (openStart openEnd : Bool) (text : String) : Prop :=
  ∃ c d, c.text = text.toList ∧ r.Leads c d ∧ (openStart = false → c.before = []) ∧
    (openEnd = false → d.after = [])

/-- An alternative of what was read matches in the text. Where a side is not open, the first one
matches from the start of the text only, or the last one to an end only, which is one under the
flags that were left. A comment there takes the latter back. -/
def Reading.MatchesBound (r : Reading) (comment : Prop) (openStart openEnd : Bool)
    (text : String) : Prop :=
  ∃ c d, c.text = text.toList ∧ r.LeadsWith (fun c => openStart = false → c.before = [])
    (fun d => openEnd = false → ¬comment → d.satisfies r.flags.lineEnd = true) c d

theorem satisfies_lineEnd {f : Flags} (h : f.multiLine = false) {d : Cursor} :
    d.satisfies f.lineEnd = true ↔ d.after = [] := by
  rw [Flags.lineEnd, h]
  exact List.isEmpty_iff

/-- Where the expression is one alternative, or is bound at no side, it is bound as a whole. Flags
that make an end of a line an end, and a comment at the end, are still to be kept out. -/
theorem Reading.matchesBound_iff {r : Reading} {whole : Regex} {comment : Prop}
    {openStart openEnd : Bool} (hwhole : whole = oneOf r.alternatives)
    (hbound : r.alternatives.length = 1 ∨ openStart = true ∧ openEnd = true)
    (hend : openEnd = false → r.flags.multiLine = false ∧ ¬comment) (text : String) :
    r.MatchesBound comment openStart openEnd text ↔
      whole.MatchesWithin openStart openEnd text := by
  refine exists_congr fun c => exists_congr fun d => and_congr_right fun _ => ?_
  rcases hbound with hone | ⟨rfl, rfl⟩
  · obtain ⟨b, hb⟩ := List.length_eq_one_iff.mp hone
    have hbody : whole = b := by rw [hwhole, hb, oneOf]
    rw [leadsWith_single hb, hbody]
    refine and_congr_right fun _ => and_congr_right fun _ => forall_congr' fun hclosed => ?_
    rw [satisfies_lineEnd (hend hclosed).1]
    simp [(hend hclosed).2]
  · have hleads : whole.Leads c d ↔ r.LeadsWith (fun _ => True) (fun _ => True) c d := by
      rw [hwhole, ← regex_whole, leads_whole]
    simp [hleads]

/-! ## At the end -/

theorem leads_sequence_look {rs : List Regex} {l : Look} {c d : Cursor} :
    (sequence (rs ++ [.look l])).Leads c d ↔
      (sequence rs).Leads c d ∧ d.satisfies l = true := by
  rw [leads_sequence_append]
  constructor
  · rintro ⟨e, hrs, hl, rfl⟩
    exact ⟨hrs, hl⟩
  · rintro ⟨hrs, hl⟩
    exact ⟨d, hrs, hl, rfl⟩

theorem leads_look_sequence {rs : List Regex} {l : Look} {c d : Cursor} :
    (sequence (.look l :: rs)).Leads c d ↔
      (sequence rs).Leads c d ∧ c.satisfies l = true := by
  rw [leads_sequence_cons]
  constructor
  · rintro ⟨e, ⟨hl, rfl⟩, hrs⟩
    exact ⟨hrs, hl⟩
  · rintro ⟨hrs, hl⟩
    exact ⟨c, ⟨hl, rfl⟩, hrs⟩

namespace Reading

theorem alternatives_eq (r : Reading) :
    r.alternatives = r.branches.reverse.map (·.regex) ++
      [sequence (r.parts.reverse.map (·.regex))] := by
  simp [alternatives, regex_sequencePart]

theorem leadsWith_push {r : Reading} {l : Look} {height : Nat} {first last : Cursor → Prop}
    {c d : Cursor} :
    (r.push (.look l) height).LeadsWith first last c d ↔
      r.LeadsWith first (fun d => d.satisfies l = true ∧ last d) c d := by
  unfold LeadsWith
  rw [alternatives_eq, alternatives_eq]
  simp only [push, List.reverse_cons, List.map_append, List.map_cons, List.map_nil,
    exists_getElem?_concat, List.length_append, List.length_singleton, Nat.add_right_cancel_iff,
    leads_sequence_look, forall_true_left]
  refine or_congr (exists_congr fun i => exists_congr fun b => and_congr_right fun hb => ?_) ?_
  · have hne : i ≠ (r.branches.reverse.map (·.regex)).length :=
      Nat.ne_of_lt (List.getElem?_eq_some_iff.mp hb).1
    simp only [hne, false_imp_iff]
  · tauto

end Reading

/-! ## At the start -/

/-- The parts and branches of a group, and the same with a part before all of them. -/
inductive Opened (q : Part) : List Part → List Part → List Part → List Part → Prop where
  | first (ps : List Part) : Opened q ps [] (ps ++ [q]) []
  | later (qs bs : List Part) {ps : List Part} :
      Opened q ps (bs ++ [sequencePart qs]) ps (bs ++ [sequencePart (qs ++ [q])])

/-- A reading and the same with a part before everything. -/
inductive Begun (q : Part) : Reading → Reading → Prop where
  | here {f names ps bs ps' bs'} : Opened q ps bs ps' bs' →
      Begun q ⟨f, names, ps, bs, []⟩ ⟨f, names, ps', bs', []⟩
  | inside (g : Flags) (ls : List Level) {f names ps bs qs qs' cs cs'} : Opened q qs cs qs' cs' →
      Begun q ⟨f, names, ps, bs, ls ++ [⟨g, qs, cs⟩]⟩ ⟨f, names, ps, bs, ls ++ [⟨g, qs', cs'⟩]⟩

variable {q : Part}

theorem Opened.push {ps bs ps' bs' : List Part} (p : Part) (h : Opened q ps bs ps' bs') :
    Opened q (p :: ps) bs (p :: ps') bs' := by
  cases h with
  | first => exact .first (p :: ps)
  | later qs bs => exact .later qs bs

theorem Opened.branch {ps bs ps' bs' : List Part} (h : Opened q ps bs ps' bs') :
    Opened q [] (sequencePart ps :: bs) [] (sequencePart ps' :: bs') := by
  cases h with
  | first => exact .later ps []
  | later qs bs => exact .later qs (sequencePart ps :: bs)

theorem Opened.pop {p : Part} {ps bs ps' bs' : List Part} (h : Opened q (p :: ps) bs ps' bs') :
    ∃ ps'', ps' = p :: ps'' ∧ Opened q ps bs ps'' bs' := by
  cases h with
  | first => exact ⟨_, rfl, .first ps⟩
  | later qs bs => exact ⟨ps, rfl, .later qs bs⟩

theorem simulates_begun : Simulates (Begun q) where
  flags h := by cases h <;> rfl
  names h := by cases h <;> rfl
  push regex height h := by
    cases h with
    | here h => exact .here (h.push _)
    | inside g ls h => exact .inside g ls h
  setFlags f h := by
    cases h with
    | here h => exact .here (h.push _)
    | inside g ls h => exact .inside g ls h
  branch h := by
    cases h with
    | here h => exact .here h.branch
    | inside g ls h => exact .inside g ls h
  openWith f names h := by
    cases h with
    | @here g _ _ _ _ _ h => exact .inside g [] h
    | @inside g ls f _ ps bs _ _ _ _ h => exact .inside g (⟨f, ps, bs⟩ :: ls) h
  close h hclose := by
    cases h with
    | here h => cases hclose
    | inside g ls h =>
        cases ls with
        | nil =>
            cases hclose
            exact ⟨_, rfl, .here (h.push _)⟩
        | cons l ls =>
            cases hclose
            exact ⟨_, rfl, .inside g ls h⟩
  repeatLast h hrepeat := by
    cases h with
    | @here _ _ ps _ _ _ h =>
        cases ps with
        | nil => cases hrepeat
        | cons p ps =>
            obtain ⟨ps', rfl, hpop⟩ := h.pop
            unfold Reading.repeatLast at hrepeat ⊢
            dsimp only at hrepeat ⊢
            split at hrepeat
            · rename_i hp
              cases hrepeat
              exact ⟨_, if_pos hp, .here (hpop.push _)⟩
            · cases hrepeat
    | @inside _ _ _ _ ps _ _ _ _ _ h =>
        cases ps with
        | nil => cases hrepeat
        | cons p ps =>
            unfold Reading.repeatLast at hrepeat ⊢
            dsimp only at hrepeat ⊢
            split at hrepeat
            · rename_i hp
              cases hrepeat
              exact ⟨_, if_pos hp, .inside _ _ h⟩
            · cases hrepeat

theorem Opened.alternatives {ps bs ps' bs' : List Part} (h : Opened q ps bs ps' bs') :
    ∃ rs rest, (sequencePart ps :: bs).reverse.map (·.regex) = sequence rs :: rest ∧
      (sequencePart ps' :: bs').reverse.map (·.regex) = sequence (q.regex :: rs) :: rest := by
  cases h with
  | first =>
      exact ⟨ps.reverse.map (·.regex), [], by simp [regex_sequencePart],
        by simp [regex_sequencePart]⟩
  | later qs bs =>
      exact ⟨qs.reverse.map (·.regex), (bs.reverse ++ [sequencePart ps]).map (·.regex),
        by simp [regex_sequencePart], by simp [regex_sequencePart]⟩

theorem Begun.outer {r r' : Reading} (h : Begun q r r') (houter : r.outer = []) :
    r'.outer = [] := by
  cases h with
  | here _ => rfl
  | inside g ls _ => simp at houter

theorem leadsWith_begun {l : Look} {height : Nat} {repeatable : Bool} {r r' : Reading}
    (h : Begun ⟨.look l, height, repeatable⟩ r r') (houter : r.outer = [])
    {first last : Cursor → Prop} {c d : Cursor} :
    r'.LeadsWith first last c d ↔
      r.LeadsWith (fun c => c.satisfies l = true ∧ first c) last c d := by
  cases h with
  | inside g ls h => simp at houter
  | here h =>
      obtain ⟨rs, rest, hbefore, hafter⟩ := h.alternatives
      unfold Reading.LeadsWith Reading.alternatives
      simp only [hbefore, hafter, exists_getElem?_cons, List.length_cons, leads_look_sequence,
        Nat.succ_ne_zero, false_imp_iff, true_imp_iff]
      exact or_congr_left (by tauto)

/-! ## At both ends -/

/-- What is read of the whole pattern, in which every group is closed. -/
def Reads (p : List Char) (r : Reading) : Prop :=
  readParts p.length Reading.start p = .ok r ∧ r.outer = []

theorem Reads.unique {p : List Char} {r s : Reading} (hr : Reads p r) (hs : Reads p s) : r = s :=
  Except.ok.inj (hr.1.symm.trans hs.1)

theorem parse_of_reads {pattern : String} {r : Reading} (h : Reads pattern.toList r) :
    parse pattern =
      if nestLimit < r.whole.height then .error .tooNested
      else if RegexError.sizeLimit < r.whole.regex.compiledSize then .error .tooLarge
      else .ok r.whole.regex := by
  obtain ⟨hread, houter⟩ := h
  unfold parse
  simp only [hread, houter, bind, Except.bind, pure, Except.pure, throw, throwThe,
    MonadExceptOf.throw, List.isEmpty_nil, Bool.not_true, Bool.false_eq_true, if_false]

theorem exists_reads {pattern : String} {regex : Regex} (h : parse pattern = .ok regex) :
    ∃ r, Reads pattern.toList r ∧ regex = r.whole.regex := by
  have hparse := h
  obtain ⟨r, hread, h⟩ := bind_eq_ok.mp h
  have houter : r.outer = [] := by
    cases hr : r.outer with
    | nil => rfl
    | cons l ls =>
        rw [hr] at h
        cases h
  refine ⟨r, ⟨hread, houter⟩, ?_⟩
  rw [parse_of_reads ⟨hread, houter⟩] at hparse
  split at hparse
  · cases hparse
  · split at hparse
    · cases hparse
    · exact (Except.ok.inj hparse).symm

/-- The pattern ends in a comment, which takes the dollar sign behind it too. -/
def EndsInComment (p : List Char) : Prop :=
  readParts (p.length + 1) Reading.start (p ++ ['$']) = readParts p.length Reading.start p

/-- The pattern between the conditions that it starts where the text does and that it ends where
the text does, or without them. -/
def bounded (atStart atEnd : Bool) (p : List Char) : List Char :=
  (if atStart then ['^'] else []) ++ p ++ (if atEnd then ['$'] else [])

section

variable {p : List Char} {r : Reading}

/-- The dollar sign behind a pattern is read, unless a comment takes it. -/
theorem endsInComment_or_push (hread : readParts p.length Reading.start p = .ok r) :
    ('#' ∈ p ∧ EndsInComment p) ∨ ¬EndsInComment p ∧
      readParts (p.length + 1) Reading.start (p ++ ['$']) =
        .ok (r.push (.look r.flags.lineEnd) 0) := by
  have hend : Ending ('#' ∈ p) True p (p ++ ['$']) := .append_sign id
  obtain ⟨s, rfl, ⟨hhash, hsame⟩ | ⟨-, hpush⟩⟩ := readParts_same (r := Reading.start)
    simulates_eq rfl hend (Nat.le_refl _) (Nat.le_of_eq List.length_append) hread
  · exact .inl ⟨hhash, hsame.trans hread.symm⟩
  · refine .inr ⟨fun hcomment => ?_, hpush⟩
    have hlength := congrArg (fun r => r.parts.length)
      (Except.ok.inj (hpush.symm.trans (hcomment.trans hread)))
    simp [Reading.push] at hlength

theorem hash_mem_of_endsInComment (h : Reads p r) (hcomment : EndsInComment p) : '#' ∈ p := by
  rcases endsInComment_or_push h.1 with ⟨hhash, -⟩ | ⟨hnone, -⟩
  · exact hhash
  · exact (hnone hcomment).elim

/-- Behind the pattern the sign is a condition on the end of the last alternative. -/
theorem exists_reads_end (h : Reads p r) (atEnd : Bool) :
    ∃ s, Reads (bounded false atEnd p) s ∧ ∀ first last c d, s.LeadsWith first last c d ↔
      r.LeadsWith first (fun d => (atEnd = true → ¬EndsInComment p →
        d.satisfies r.flags.lineEnd = true) ∧ last d) c d := by
  obtain ⟨hread, houter⟩ := h
  unfold Reads
  cases atEnd with
  | false => exact ⟨r, ⟨by simpa [bounded] using hread, houter⟩, by simp⟩
  | true =>
      have hbounded : bounded false true p = p ++ ['$'] := rfl
      rw [hbounded, List.length_append, List.length_singleton]
      rcases endsInComment_or_push hread with ⟨-, hcomment⟩ | ⟨hcomment, hpush⟩
      · exact ⟨r, ⟨hcomment.trans hread, houter⟩, by simp [hcomment]⟩
      · refine ⟨_, ⟨hpush, houter⟩, fun first last c d => ?_⟩
        rw [Reading.leadsWith_push]
        simp [hcomment]

/-- Between its conditions a pattern can be read if it can be read alone. Its first alternative
is bound to the start, and its last one to the end, as it is under the flags that the pattern
leaves. -/
theorem exists_reads_bounded (h : Reads p r) (atStart atEnd : Bool) :
    ∃ s, Reads (bounded atStart atEnd p) s ∧ ∀ c d, s.whole.regex.Leads c d ↔
      r.LeadsWith (fun c => atStart = true → c.before = [])
        (fun d => atEnd = true → ¬EndsInComment p → d.satisfies r.flags.lineEnd = true) c d := by
  obtain ⟨s, hs, hleads⟩ := exists_reads_end h atEnd
  cases atStart with
  | false => exact ⟨s, hs, fun c d => by simp [Reading.leads_whole, hleads]⟩
  | true =>
      have hbegun : Begun ⟨.look .textStart, 0, true⟩ Reading.start
          (Reading.start.push (.look .textStart) 0) := .here (.first [])
      have hend : Ending True False (bounded false atEnd p) (bounded false atEnd p) := .refl _
      obtain ⟨s', hbegun', ⟨-, hs'⟩ | ⟨hfalse, -⟩⟩ := readParts_same simulates_begun hbegun hend
        (Nat.le_refl _) (Nat.le_refl _) hs.1
      · refine ⟨s', ⟨?_, hbegun'.outer hs.2⟩, fun c d => ?_⟩
        · have hpart : readPart Reading.start '^' (bounded false atEnd p) =
              .ok (Reading.start.push (.look .textStart) 0, bounded false atEnd p) := by
            simp [readPart, Flags.lineStart, Reading.start, Flags.default]
          have hcons : bounded true atEnd p = '^' :: bounded false atEnd p := rfl
          rw [hcons, List.length_cons, readParts_cons rfl, hpart]
          exact hs'
        · rw [Reading.leads_whole, leadsWith_begun hbegun' hs.2, hleads]
          simp [Cursor.satisfies]
      · exact hfalse.elim

end

end Grove.Regex
