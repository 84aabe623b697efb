import Mathlib.Logic.Basic
import Mathlib.Tactic.SplitIfs
import Grove.Proofs.Regex.Class
import Grove.Regex.Reader

/-!
# Readings before a dollar sign

A pattern is read part by part, and each part changes what has been read. Two readings that a
relation keeps together through all these changes (`Simulates`) are followed over two texts that
differ in a dollar sign at the end: they stay together, and at the end the sign is read or a
comment has taken it (`readParts_same`).
-/

namespace Grove.Regex

variable {hidden signed : Prop} {cs cs' : List Char}

/-- A relation between readings that everything keeps that is done with a reading. -/
structure Simulates (Q : Reading → Reading → Prop) : Prop where
  flags : ∀ {r r'}, Q r r' → r'.flags = r.flags
  names : ∀ {r r'}, Q r r' → r'.names = r.names
  push : ∀ {r r'} (regex : Regex) (height : Nat), Q r r' →
    Q (r.push regex height) (r'.push regex height)
  setFlags : ∀ {r r'} (f : Flags), Q r r' →
    Q { r with flags := f, parts := ⟨.empty, 0, false⟩ :: r.parts }
      { r' with flags := f, parts := ⟨.empty, 0, false⟩ :: r'.parts }
  branch : ∀ {r r'}, Q r r' →
    Q { r with parts := [], branches := Reading.sequencePart r.parts :: r.branches }
      { r' with parts := [], branches := Reading.sequencePart r'.parts :: r'.branches }
  openWith : ∀ {r r'} (f : Flags) (names : List (List Char)), Q r r' →
    Q (r.openWith f names) (r'.openWith f names)
  close : ∀ {r r' s}, Q r r' → r.close = .ok s → ∃ s', r'.close = .ok s' ∧ Q s s'
  repeatLast : ∀ {r r' s} {least : Nat} {most : Option Nat}, Q r r' →
    r.repeatLast least most = .ok s → ∃ s', r'.repeatLast least most = .ok s' ∧ Q s s'

theorem simulates_eq : Simulates Eq where
  flags h := by rw [h]
  names h := by rw [h]
  push _ _ h := by rw [h]
  setFlags _ h := by rw [h]
  branch h := by rw [h]
  openWith _ _ h := by rw [h]
  close h hs := ⟨_, h ▸ hs, rfl⟩
  repeatLast h hs := ⟨_, h ▸ hs, rfl⟩

/-! ## Groups -/

theorem flagItems_same {n : Nat} (h : Ending hidden signed cs cs') (hn : cs.length ≤ n)
    (seen : List Char) {items : List Char} {ending : Char} {rest : List Char}
    (hread : flagItems seen cs = .ok (items, ending, rest)) :
    ∃ rest', flagItems seen cs' = .ok (items, ending, rest') ∧
      Ending hidden signed rest rest' ∧ rest.length ≤ n := by
  induction h generalizing seen with
  | same _ => cases hread
  | sign _ => cases hread
  | @cons c cs cs' _ h ih =>
      rw [flagItems] at hread ⊢
      split_ifs at hread ⊢
      · cases hread
        exact ⟨_, rfl, h, Nat.le_of_succ_le hn⟩
      · exact ih (Nat.le_of_succ_le hn) _ hread

theorem groupName_same (h : Ending hidden signed cs cs') (names : List (List Char)) :
    Same hidden signed cs.length Eq (groupName names cs) (groupName names cs') := by
  unfold groupName
  rcases cutAt_same (show '>' ≠ '$' by decide) h with
    ⟨hnone, hnone'⟩ | ⟨name, rest, rest', hsome, hsome', hend, hlength⟩
  · rw [hnone]
    exact .error
  · rw [hsome, hsome']
    cases name with
    | nil => exact .error
    | cons c more =>
        refine .ite (fun _ => .error) fun _ => .ite (fun _ => .error) fun _ => ?_
        exact .ok rfl hend hlength

/-- A group with a name, after the angle. -/
def namedGroup (r : Reading) (cs : List Char) : Except RegexError (Reading × List Char) := do
  let (name, rest) ← groupName r.names cs
  return (r.openWith r.flags (name :: r.names), rest)

/-- A group with flags, or flags alone, after the question mark. -/
def flagGroup (r : Reading) (cs : List Char) : Except RegexError (Reading × List Char) := do
  let (items, ending, rest) ← flagItems [] cs
  let flags := r.flags.apply items
  if ending = ')' then
    if items.isEmpty then throw .nothingToRepeat
    return ({ r with flags, parts := ⟨.empty, 0, false⟩ :: r.parts }, rest)
  else return (r.openWith flags r.names, rest)

/-- What follows the question mark of a group. -/
def markedGroup (r : Reading) (cs : List Char) : Except RegexError (Reading × List Char) :=
  if begins '=' cs || begins '!' cs then .error .lookAround
  else if begins '<' cs then
    if begins '=' cs.tail || begins '!' cs.tail then .error .lookAround else namedGroup r cs.tail
  else if begins 'P' cs && begins '<' cs.tail then namedGroup r cs.tail.tail
  else flagGroup r cs

theorem openGroup_eq (r : Reading) (cs : List Char) :
    openGroup r cs =
      if begins '?' (r.flags.skip cs) then markedGroup r (r.flags.skip cs).tail
      else .ok (r.openWith r.flags r.names, r.flags.skip cs) := by
  unfold openGroup markedGroup
  generalize r.flags.skip cs = ds
  rcases ds with _ | ⟨a, ds⟩
  · rfl
  rcases ne_or_eq a '?' with ha | rfl
  · simp [begins, ha]
    rfl
  rcases ds with _ | ⟨b, ds⟩
  · rfl
  rcases eq_or_ne b '=' with rfl | hequal
  · rfl
  rcases eq_or_ne b '!' with rfl | hmark
  · rfl
  rcases eq_or_ne b '<' with rfl | hangle
  · rcases ds with _ | ⟨c, ds⟩
    · rfl
    rcases eq_or_ne c '=' with rfl | hequal
    · rfl
    rcases eq_or_ne c '!' with rfl | hmark
    · rfl
    simp [begins, hequal, hmark, namedGroup]
  rcases ne_or_eq b 'P' with hname | rfl
  · simp [begins, hequal, hmark, hangle, hname, flagGroup]
  rcases ds with _ | ⟨c, ds⟩
  · rfl
  rcases eq_or_ne c '<' with rfl | hangle
  · rfl
  simp [begins, hangle, flagGroup]

section

variable {Q : Reading → Reading → Prop} {r r' : Reading}

theorem namedGroup_same (hQ : Simulates Q) (h : Q r r') {n : Nat}
    (hend : Ending hidden signed cs cs') (hn : cs.length ≤ n) :
    Same hidden signed n Q (namedGroup r cs) (namedGroup r' cs') := by
  unfold namedGroup
  rw [hQ.flags h, hQ.names h]
  refine (groupName_same hend r.names).bind ?_
  rintro name _ rest rest' rfl hend hlength
  exact .ok (hQ.openWith _ _ h) hend (Nat.le_trans hlength hn)

theorem flagGroup_same (hQ : Simulates Q) (h : Q r r') {n : Nat}
    (hend : Ending hidden signed cs cs') (hn : cs.length ≤ n) :
    Same hidden signed n Q (flagGroup r cs) (flagGroup r' cs') := by
  intro s last hread
  unfold flagGroup at hread ⊢
  obtain ⟨⟨items, ending, rest⟩, hitems, hread⟩ := bind_eq_ok.mp hread
  obtain ⟨rest', hitems', hend, hlength⟩ := flagItems_same hend hn [] hitems
  rw [hitems', hQ.flags h, hQ.names h]
  refine Same.ite (fun _ => .ite (fun _ => .error) fun _ => ?_) (fun _ => ?_) s last hread
  · have hset := hQ.setFlags (r.flags.apply items) h
    rw [hQ.names h] at hset
    exact .ok hset hend hlength
  · exact .ok (hQ.openWith _ _ h) hend hlength

theorem markedGroup_same (hQ : Simulates Q) (h : Q r r') {n : Nat}
    (hend : Ending hidden signed cs cs') (hn : cs.length ≤ n) :
    Same hidden signed n Q (markedGroup r cs) (markedGroup r' cs') := by
  have hlook {ds ds' : List Char} (hd : Ending hidden signed ds ds') :
      (begins '=' ds' || begins '!' ds') = (begins '=' ds || begins '!' ds) := by
    rw [hd.begins_eq (by decide), hd.begins_eq (by decide)]
  unfold markedGroup
  rw [hlook hend]
  refine .ite (fun _ => .error) fun _ => ?_
  rcases hend.begins_cases (show '<' ≠ '$' by decide) with
    ⟨hplain, hplain'⟩ | ⟨ds, ds', rfl, rfl, hd⟩
  · rw [hplain, hplain']
    rcases hend.begins_cases (show 'P' ≠ '$' by decide) with
      ⟨hplain, hplain'⟩ | ⟨ds, ds', rfl, rfl, hd⟩
    · rw [hplain, hplain']
      exact flagGroup_same hQ h hend hn
    · rcases hd.begins_cases (show '<' ≠ '$' by decide) with
        ⟨hplain, hplain'⟩ | ⟨es, es', rfl, rfl, he⟩
      · simp only [List.tail_cons, hplain, hplain', Bool.and_false]
        exact flagGroup_same hQ h hend hn
      · exact namedGroup_same hQ h he (Nat.le_of_succ_le (Nat.le_of_succ_le hn))
  · simp only [List.tail_cons, hlook hd]
    refine .ite (fun _ => ?_) fun hnone => absurd rfl hnone
    exact .ite (fun _ => .error) fun _ => namedGroup_same hQ h hd (Nat.le_of_succ_le hn)

theorem openGroup_same (hQ : Simulates Q) (h : Q r r') (hend : Ending hidden signed cs cs') :
    Same hidden signed cs.length Q (openGroup r cs) (openGroup r' cs') := by
  have hskip := hend.skip r.flags
  have hlength := r.flags.skip_length_le cs
  rw [openGroup_eq, openGroup_eq, hQ.flags h, hQ.names h]
  rcases hskip.begins_cases (show '?' ≠ '$' by decide) with
    ⟨hplain, hplain'⟩ | ⟨ds, ds', hs, hs', hd⟩
  · rw [hplain, hplain']
    exact .ok (hQ.openWith _ _ h) hskip hlength
  · rw [hs] at hlength
    rw [hs, hs']
    exact markedGroup_same hQ h hd (Nat.le_of_succ_le hlength)

/-! ## Counts -/

theorem digits_eq_taken (f : Flags) (n : Nat) (cs : List Char) :
    countNumber.digits f n cs = taken f Char.isDigit n cs := by
  induction n generalizing cs with
  | zero => rfl
  | succ n ih =>
      cases cs with
      | nil => rfl
      | cons c cs => rw [countNumber.digits, taken, ih]

theorem blanks_eq_taken (f : Flags) (n : Nat) (cs : List Char) :
    countNumber.blanks f n cs = (taken f Text.isBlank n cs).2 := by
  induction n generalizing cs with
  | zero => rfl
  | succ n ih =>
      cases cs with
      | nil => rfl
      | cons c cs =>
          rw [countNumber.blanks, taken, ih]
          split <;> rfl

theorem countNumber_same (f : Flags) (h : Ending hidden signed cs cs') :
    Same hidden signed cs.length Eq (countNumber f cs) (countNumber f cs') := by
  have hblank := h.dropWhile (p := Text.isBlank) (by decide)
  obtain ⟨ds, rest, rest', hds, hds', hend, hlength⟩ :=
    taken_same (f := f) (p := Char.isDigit) (by decide) hblank
      (Nat.le_trans (List.dropWhile_suffix Text.isBlank).length_le (Nat.le_succ _))
      (Nat.le_trans (List.dropWhile_suffix Text.isBlank).length_le (Nat.le_succ _))
  obtain ⟨es, last, last', hes, hes', hlast, hlength'⟩ :=
    taken_same (f := f) (p := Text.isBlank) (by decide) hend (Nat.le_succ _) (Nat.le_succ _)
  unfold countNumber
  rw [digits_eq_taken, digits_eq_taken, hds, hds']
  dsimp only
  rw [blanks_eq_taken, blanks_eq_taken, hes, hes']
  have hle : last.length ≤ cs.length :=
    Nat.le_trans hlength' (Nat.le_trans hlength (List.dropWhile_suffix Text.isBlank).length_le)
  refine .ite (fun _ => .ok rfl hlast hle) fun _ => .ite (fun _ => .error) fun _ => ?_
  exact .ok rfl hlast hle

theorem skipMark_same (h : Ending hidden signed cs cs') :
    Ending hidden signed (skipMark cs) (skipMark cs') ∧ (skipMark cs).length ≤ cs.length := by
  cases h with
  | same hhidden => exact ⟨.same hhidden, Nat.le_refl _⟩
  | sign hsigned => exact ⟨.sign hsigned, Nat.le_refl _⟩
  | cons c hc h =>
      by_cases hmark : c = '?'
      · subst hmark
        exact ⟨h, Nat.le_succ _⟩
      · have hskip (cs : List Char) : skipMark (c :: cs) = c :: cs := by
          rw [skipMark]
          rintro _ ⟨⟩
          exact hmark rfl
        rw [hskip, hskip]
        exact ⟨.cons c hc h, Nat.le_refl _⟩

/-- What follows the numbers of a count. -/
def countEnd (f : Flags) (r : Reading) (least : Nat) (most : Option Nat) (cs : List Char) :
    Except RegexError (Reading × List Char) := do
  match cs with
  | '\x7d' :: rest =>
    if most.any (· < least) then throw .countReversed
    return (← r.repeatLast least most, skipMark (f.skip rest))
  | _ => throw .countUnclosed

theorem countEnd_same (hQ : Simulates Q) (h : Q r r') {n : Nat} (hend : Ending hidden signed cs cs')
    (hn : cs.length ≤ n) (f : Flags) (least : Nat) (most : Option Nat) :
    Same hidden signed n Q (countEnd f r least most cs) (countEnd f r' least most cs') := by
  intro s last hread
  unfold countEnd at hread ⊢
  split at hread
  · obtain - | - | ⟨-, -, hd⟩ := hend
    obtain ⟨hmark, hlength⟩ := skipMark_same (hd.skip f)
    refine Same.ite (fun _ => .error) (fun _ => ?_) s last hread
    refine .after (fun s hs => hQ.repeatLast h hs) fun s s' hQs => .ok hQs hmark ?_
    exact Nat.le_trans hlength (Nat.le_trans (f.skip_length_le _) (Nat.le_of_succ_le hn))
  · cases hread

/-- What follows the comma of a count. -/
def countMost (f : Flags) (r : Reading) (least : Nat) (cs : List Char) :
    Except RegexError (Reading × List Char) := do
  match cs with
  | '\x7d' :: rest => countEnd f r least none ('\x7d' :: rest)
  | cs =>
    let (most, cs) ← countNumber f cs
    let some most := most | throw .countMissing
    countEnd f r least (some most) cs

theorem countMost_same (hQ : Simulates Q) (h : Q r r') {n : Nat}
    (hend : Ending hidden signed cs cs') (hn : cs.length ≤ n) (f : Flags) (least : Nat) :
    Same hidden signed n Q (countMost f r least cs) (countMost f r' least cs') := by
  intro s last hread
  unfold countMost at hread ⊢
  split at hread
  · obtain - | - | ⟨-, hc, hd⟩ := hend
    exact countEnd_same hQ h (.cons '\x7d' hc hd) hn f least none s last hread
  · rename_i hbrace
    split
    · obtain - | - | ⟨-, -, -⟩ := hend
      exact (hbrace _ rfl).elim
    · refine (countNumber_same f hend).bind ?_ s last hread
      rintro most _ rest rest' rfl hend hlength
      cases most with
      | none => exact .error
      | some most => exact countEnd_same hQ h hend (Nat.le_trans hlength hn) f least (some most)

theorem counted_same (hQ : Simulates Q) (h : Q r r') (hend : Ending hidden signed cs cs') :
    Same hidden signed cs.length Q (counted r cs) (counted r' cs') := by
  unfold counted
  rw [hQ.flags h]
  refine ((countNumber_same r.flags (hend.skip r.flags)).mono (r.flags.skip_length_le cs)).bind ?_
  rintro least _ rest rest' rfl hend hlength s last hread
  dsimp only at hread ⊢
  split at hread
  · obtain - | - | ⟨-, -, hd⟩ := hend
    cases least with
    | none => cases hread
    | some least =>
        refine countMost_same hQ h (hd.skip r.flags) ?_ r.flags least s last hread
        exact Nat.le_trans (r.flags.skip_length_le _) (Nat.le_of_succ_le hlength)
  · rename_i hcomma
    split
    · obtain - | - | ⟨-, -, -⟩ := hend
      exact (hcomma _ rfl).elim
    · cases least with
      | none => cases hread
      | some least =>
          exact countEnd_same hQ h hend hlength r.flags least (some least) s last hread

/-! ## Parts -/

theorem readPart_same (hQ : Simulates Q) (h : Q r r') (hend : Ending hidden signed cs cs')
    (c : Char) : Same hidden signed cs.length Q (readPart r c cs) (readPart r' c cs') := by
  unfold readPart
  rw [hQ.flags h]
  have hstep {x x' : Except RegexError Reading} (hx : ∀ s, x = .ok s → ∃ s', x' = .ok s' ∧ Q s s')
      {ds ds' : List Char} (hd : Ending hidden signed ds ds') (hlength : ds.length ≤ cs.length) :
      Same hidden signed cs.length Q (x.map (·, ds)) (x'.map (·, ds')) := by
    intro s last hread
    obtain ⟨s, hs, ⟨⟩⟩ := map_eq_ok.mp hread
    obtain ⟨s', hs', hQs⟩ := hx s hs
    exact ⟨s', ds', map_eq_ok.mpr ⟨s', hs', rfl⟩, hQs, hd, hlength⟩
  have hpush (regex : Regex) (height : Nat) :
      Same hidden signed cs.length Q (.ok (r.push regex height, cs))
        (.ok (r'.push regex height, cs')) := .ok (hQ.push _ _ h) hend (Nat.le_refl _)
  have hrepeat (least : Nat) (most : Option Nat) :
      Same hidden signed cs.length Q ((r.repeatLast least most).map (·, skipMark cs))
        ((r'.repeatLast least most).map (·, skipMark cs')) :=
    hstep (fun s hs => hQ.repeatLast h hs) (skipMark_same hend).1 (skipMark_same hend).2
  refine .ite (fun _ => openGroup_same hQ h hend) fun _ => ?_
  refine .ite (fun _ => hstep (fun s hs => hQ.close h hs) hend (Nat.le_refl _)) fun _ => ?_
  refine .ite (fun _ => ?_) fun _ => ?_
  · have hbranch := hQ.branch h
    rw [hQ.flags h] at hbranch
    exact .ok hbranch hend (Nat.le_refl _)
  refine .ite (fun _ => ?_) fun _ => ?_
  · obtain ⟨negated, inner, rest, rest', hopen, hopen', hrest, hlength⟩ :=
      openClass_same (f := r.flags) hend
    rw [hopen, hopen']
    have hclass := readClass_same (f := r.flags) hrest (Nat.succ_le_succ hrest.length_le)
      [.opened negated []] inner
    refine (hclass.mono hlength).map (fun part => r.push (.chars part.chars) part.height)
      (fun part => r'.push (.chars part.chars) part.height) fun part _ hpart => ?_
    rw [← hpart]
    exact hQ.push _ _ h
  refine .ite (fun _ => hrepeat 0 (some 1)) fun _ => ?_
  refine .ite (fun _ => hrepeat 0 none) fun _ => ?_
  refine .ite (fun _ => hrepeat 1 none) fun _ => ?_
  refine .ite (fun _ => counted_same hQ h hend) fun _ => ?_
  refine .ite (fun _ => ?_) fun _ => ?_
  · refine (escape_same hend).bind ?_
    rintro e _ rest rest' rfl hrest hlength
    exact .after_eq fun regex => .ok (hQ.push _ _ h) hrest hlength
  refine .ite (fun _ => ?_) fun _ => ?_
  · cases r.flags.dot with
    | error => exact .error
    | ok regex => exact hpush regex 0
  refine .ite (fun _ => hpush _ 0) fun _ => ?_
  refine .ite (fun _ => hpush _ 0) fun _ => ?_
  exact hpush _ 0

theorem readParts_of_skip {n : Nat} (hs : r.flags.skip cs = []) : readParts n r cs = .ok r := by
  cases n with
  | zero => rfl
  | succ n => rw [readParts, hs]

theorem readPart_length_le {c : Char} {s : Reading} {rest : List Char}
    (hread : readPart r c cs = .ok (s, rest)) : rest.length ≤ cs.length := by
  have hend : Ending True True cs cs := .refl cs
  obtain ⟨-, -, -, -, -, hlength⟩ := readPart_same simulates_eq (rfl : r = r) hend c s rest hread
  exact hlength

theorem readParts_cons {n : Nat} {c : Char} (hs : r.flags.skip cs = c :: cs') :
    readParts (n + 1) r cs = (do
      let (r, rest) ← readPart r c cs'
      readParts n r rest) := by
  rw [readParts, hs]

/-- The sign is a condition on the end, and nothing follows it. -/
theorem readParts_sign {n : Nat} (hs : r.flags.skip cs = ['$']) (hn : cs.length ≤ n) :
    readParts n r cs = .ok (r.push (.look r.flags.lineEnd) 0) := by
  have hlength := r.flags.skip_length_le cs
  rw [hs] at hlength
  cases n with
  | zero => exact absurd (Nat.le_trans hlength hn) (Nat.not_succ_le_zero 0)
  | succ n =>
      have hpart : readPart r '$' [] = .ok (r.push (.look r.flags.lineEnd) 0, []) := by
        simp [readPart]
      rw [readParts_cons hs, hpart]
      refine readParts_of_skip ?_
      unfold Flags.skip
      split <;> rfl

/-- At the end of the one text there is nothing behind it, or the sign is. -/
theorem readParts_end (hQ : Simulates Q) {n' : Nat} (h : Q r r')
    (hend : Ending hidden signed cs cs') (hs : r.flags.skip cs = []) (hn' : cs'.length ≤ n') :
    ∃ s', Q r s' ∧ ((hidden ∧ readParts n' r' cs' = .ok s') ∨
      signed ∧ readParts n' r' cs' = .ok (s'.push (.look r.flags.lineEnd) 0)) := by
  refine ⟨r', h, ?_⟩
  rw [← hQ.flags h] at hs ⊢
  rcases hend.skip_cases r'.flags with
    ⟨-, hs', hhidden⟩ | ⟨-, hs', hsigned⟩ | ⟨c, ds, ds', hcons, -⟩
  · exact .inl ⟨hhidden, readParts_of_skip hs'⟩
  · exact .inr ⟨hsigned, readParts_sign hs' hn'⟩
  · rw [hs] at hcons
    cases hcons

/-- Of two texts that differ in a dollar sign, related readings make related ones, but for the
condition that the sign puts on the end. If it puts none, a comment has taken it. -/
theorem readParts_same (hQ : Simulates Q) {n n' : Nat} (h : Q r r')
    (hend : Ending hidden signed cs cs') (hn : cs.length ≤ n) (hn' : cs'.length ≤ n')
    {s : Reading} (hread : readParts n r cs = .ok s) :
    ∃ s', Q s s' ∧ ((hidden ∧ readParts n' r' cs' = .ok s') ∨
      signed ∧ readParts n' r' cs' = .ok (s'.push (.look s.flags.lineEnd) 0)) := by
  induction n generalizing n' r r' cs cs' with
  | zero =>
      cases List.eq_nil_of_length_eq_zero (Nat.le_zero.mp hn)
      have hs := List.eq_nil_of_length_eq_zero (Nat.le_zero.mp (r.flags.skip_length_le []))
      cases hread
      exact readParts_end hQ h hend hs hn'
  | succ n ih =>
      rcases hend.skip_cases r.flags with
        ⟨hs, hs', hhidden⟩ | ⟨hs, hs', hsigned⟩ | ⟨c, ds, ds', hs, hs', hd, hless⟩
      · cases (readParts_of_skip hs).symm.trans hread
        exact readParts_end hQ h hend hs hn'
      · cases (readParts_of_skip hs).symm.trans hread
        exact readParts_end hQ h hend hs hn'
      · rw [readParts_cons hs] at hread
        obtain ⟨⟨t, rest⟩, hpart, hread⟩ := bind_eq_ok.mp hread
        obtain ⟨t', rest', hpart', ht, hrest, hlength⟩ := readPart_same hQ h hd.tail c t rest hpart
        have hlength' := readPart_length_le hpart'
        have hskip' := r.flags.skip_length_le cs'
        rw [hs', List.length_cons] at hskip'
        rw [← hQ.flags h] at hs'
        cases n' with
        | zero => exact absurd (Nat.le_trans hskip' hn') (Nat.not_succ_le_zero _)
        | succ n' =>
            rw [readParts_cons hs', hpart']
            exact ih ht hrest (by omega) (by omega) hread

end

end Grove.Regex
