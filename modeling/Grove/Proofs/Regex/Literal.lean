import Mathlib
import Grove.Proofs.Regex.Anchors

/-!
# Patterns of plain characters

A pattern in which every character means itself is read as the sequence of these characters. It
matches where the text has them one after the other. Its size is that of their bytes, of the
conditions at its ends, and of what surrounds an expression that is bound there.
-/

namespace Grove.Regex

open Reading (sequencePart)

/-- The characters that mean something else where a part of a pattern starts. -/
def specialChars : List Char := ['(', ')', '|', '[', '?', '*', '+', '\x7b', '\\', '.', '^', '$']

/-- Every character of the pattern means itself. -/
def IsPlain (cs : List Char) : Prop := ∀ c ∈ cs, c ∉ specialChars

instance (cs : List Char) : Decidable (IsPlain cs) :=
  List.decidableBAll (fun c => c ∉ specialChars) cs

def letter (c : Char) : Regex := .chars (.single c.toNat)

/-! ## Reading -/

/-- A reading of the expressions, one after the other, none of which has parts. -/
def Reading.ofList (rs : List Regex) : Reading :=
  ⟨Flags.default, [], (rs.map (⟨·, 0, true⟩)).reverse, [], []⟩

theorem Reading.push_ofList (rs : List Regex) (regex : Regex) :
    (ofList rs).push regex 0 = ofList (rs ++ [regex]) := by
  simp [ofList, push]

theorem readPart_plain {c : Char} (hc : c ∉ specialChars) (rs : List Regex) (rest : List Char) :
    readPart (.ofList rs) c rest = .ok (.ofList (rs ++ [letter c]), rest) := by
  simp only [specialChars, List.mem_cons, List.not_mem_nil, or_false, not_or] at hc
  rw [← Reading.push_ofList]
  simp only [readPart, hc, if_false]
  rfl

theorem readParts_plain {cs : List Char} (hplain : IsPlain cs) (n : Nat) (rs : List Regex)
    (rest : List Char) :
    readParts (cs.length + n) (.ofList rs) (cs ++ rest) =
      readParts n (.ofList (rs ++ cs.map letter)) rest := by
  induction cs generalizing rs with
  | nil => simp
  | cons c cs ih =>
      obtain ⟨hc, hcs⟩ := List.forall_mem_cons.mp hplain
      have hskip : (Reading.ofList rs).flags.skip (c :: cs ++ rest) = c :: (cs ++ rest) := rfl
      rw [List.length_cons, Nat.succ_add, readParts_cons hskip, readPart_plain hc]
      have hread := ih hcs (rs ++ [letter c])
      rw [List.append_assoc, List.singleton_append] at hread
      exact hread

/-- The expression of a pattern of plain characters, with the conditions at its ends. -/
def boundedLetters (atStart atEnd : Bool) (cs : List Char) : List Regex :=
  (if atStart then [.look .textStart] else []) ++ cs.map letter ++
    (if atEnd then [.look .textEnd] else [])

theorem reads_bounded_plain {cs : List Char} (hplain : IsPlain cs) (atStart atEnd : Bool) :
    Reads (bounded atStart atEnd cs) (.ofList (boundedLetters atStart atEnd cs)) := by
  have hsign : ∀ rs, readParts 1 (.ofList rs) ['$'] = .ok (.ofList (rs ++ [.look .textEnd])) :=
    fun rs => by rw [← Reading.push_ofList]; rfl
  have hend : ∀ rs, readParts (cs ++ if atEnd then ['$'] else []).length (.ofList rs)
      (cs ++ if atEnd then ['$'] else []) =
        .ok (.ofList (rs ++ cs.map letter ++ if atEnd then [.look .textEnd] else [])) := by
    intro rs
    rw [List.length_append, readParts_plain hplain]
    cases atEnd with
    | false => simp [readParts]
    | true => exact hsign _
  refine ⟨?_, rfl⟩
  unfold bounded boundedLetters
  cases atStart with
  | false => exact hend []
  | true =>
      simp only [if_true, List.cons_append, List.nil_append, List.length_cons]
      rw [readParts_cons rfl]
      exact hend [.look .textStart]

theorem regex_ofList (rs : List Regex) : (Reading.ofList rs).whole.regex = sequence rs := by
  have hwhole : (Reading.ofList rs).whole = sequencePart (rs.map (⟨·, 0, true⟩)).reverse := rfl
  rw [hwhole, regex_sequencePart, List.reverse_reverse, List.map_map]
  exact congrArg sequence (List.map_id rs)

theorem height_sequencePart_le {ps : List Part} (hps : ∀ p ∈ ps, p.height = 0) :
    (sequencePart ps).height ≤ 1 := by
  have hzero : ∀ n, (List.replicate n 0).foldl max 0 = 0 := fun n => by
    induction n with
    | zero => rfl
    | succ n ih => exact ih
  match ps with
  | [] => exact Nat.zero_le _
  | [p] => exact Nat.le_succ_of_le (Nat.le_of_eq (hps p List.mem_cons_self))
  | p :: q :: ps =>
      have hall : (p :: q :: ps).map (·.height) = List.replicate (ps.length + 2) 0 :=
        List.map_eq_replicate_iff.mpr hps
      change above ((p :: q :: ps).map (·.height)) ≤ 1
      rw [hall, above, hzero]

theorem height_ofList (rs : List Regex) : (Reading.ofList rs).whole.height ≤ 1 := by
  refine height_sequencePart_le fun p hp => ?_
  obtain ⟨regex, -, rfl⟩ := List.mem_map.mp (List.mem_reverse.mp hp)
  rfl

/-! ## Size -/

theorem size_letter (c : Char) : (letter c).size = stateSize * c.utf8Size := by
  have hval : c.val.toNat = c.toNat := rfl
  simp only [letter, Unicode.CharSet.single, size, Char.utf8Size, UInt32.le_iff_toNat_le, hval]
  change (if c.toNat < 0x80 then _ else _) = stateSize *
    (if c.toNat ≤ 127 then _ else if c.toNat ≤ 2047 then _ else if c.toNat ≤ 65535 then _ else _)
  split_ifs <;> omega

theorem sequence_cons (r : Regex) {rs : List Regex} (hrs : rs ≠ []) :
    sequence (r :: rs) = .cat r (sequence rs) := by
  cases rs with
  | nil => exact absurd rfl hrs
  | cons s rs => rfl

theorem size_sequence {rs : List Regex} (hrs : rs ≠ []) :
    (sequence rs).size = (rs.map size).sum := by
  induction rs with
  | nil => exact absurd rfl hrs
  | cons r rs ih =>
      by_cases hlast : rs = []
      · subst hlast
        exact (Nat.add_zero _).symm
      · rw [sequence_cons r hlast, size, ih hlast, List.map_cons, List.sum_cons]

theorem sum_size_boundedLetters (atStart atEnd : Bool) (cs : List Char) :
    ((boundedLetters atStart atEnd cs).map size).sum =
      stateSize * ((String.ofList cs).utf8ByteSize + atStart.toNat + atEnd.toNat) := by
  have hletters : ((cs.map letter).map size).sum = stateSize * (String.ofList cs).utf8ByteSize := by
    induction cs with
    | nil => simp
    | cons c cs ih =>
        rw [List.map_cons, List.map_cons, List.sum_cons, ih, size_letter, String.ofList_cons]
        simp [Nat.mul_add]
  unfold boundedLetters
  rw [List.map_append, List.map_append, List.sum_append, List.sum_append, hletters]
  cases atStart <;> cases atEnd <;> simp [size, stateSize] <;> omega

theorem mem_boundedLetters {atStart atEnd : Bool} {cs : List Char} {r : Regex}
    (h : r ∈ boundedLetters atStart atEnd cs) :
    (atStart = true ∧ r = .look .textStart) ∨ (∃ c, r = letter c) ∨
      (atEnd = true ∧ r = .look .textEnd) := by
  unfold boundedLetters at h
  rcases List.mem_append.mp h with h | h
  · rcases List.mem_append.mp h with h | h
    · exact .inl (by simpa using h)
    · obtain ⟨c, -, rfl⟩ := List.mem_map.mp h
      exact .inr (.inl ⟨c, rfl⟩)
  · exact .inr (.inr (by simpa using h))

theorem bound_sequence_eq_false {side : Bool} {rs : List Regex}
    (h : ∀ r ∈ rs, r.bound side = false) : (sequence rs).bound side = false := by
  induction rs with
  | nil => rfl
  | cons r rs ih =>
      obtain ⟨hr, hrs⟩ := List.forall_mem_cons.mp h
      by_cases hlast : rs = []
      · subst hlast
        exact hr
      · rw [sequence_cons r hlast, bound, hr, ih hrs]
        simp

theorem bound_textStart_sequence (rs : List Regex) :
    (sequence (.look .textStart :: rs)).bound true = true := by
  cases rs <;> rfl

theorem bound_sequence_textEnd (rs : List Regex) :
    (sequence (rs ++ [.look .textEnd])).bound false = true := by
  induction rs with
  | nil => rfl
  | cons r rs ih =>
      have hrest : rs ++ [.look .textEnd] ≠ [] := by simp
      rw [List.cons_append, sequence_cons r hrest, bound, ih]
      rfl

theorem bound_true_boundedLetters (atStart atEnd : Bool) (cs : List Char) :
    (sequence (boundedLetters atStart atEnd cs)).bound true = atStart := by
  cases atStart with
  | true => exact bound_textStart_sequence _
  | false =>
      refine bound_sequence_eq_false fun r hr => ?_
      obtain ⟨hfalse, -⟩ | ⟨c, rfl⟩ | ⟨-, rfl⟩ := mem_boundedLetters hr
      · cases hfalse
      · rfl
      · rfl

theorem bound_false_boundedLetters (atStart atEnd : Bool) (cs : List Char) :
    (sequence (boundedLetters atStart atEnd cs)).bound false = atEnd := by
  cases atEnd with
  | true => exact bound_sequence_textEnd _
  | false =>
      refine bound_sequence_eq_false fun r hr => ?_
      obtain ⟨-, rfl⟩ | ⟨c, rfl⟩ | ⟨hfalse, -⟩ := mem_boundedLetters hr
      · rfl
      · rfl
      · cases hfalse

/-- What the pattern of the characters takes in its compiled form, in bytes. -/
def lettersSize (atStart atEnd : Bool) (bytes : Nat) : Nat :=
  stateSize * (bytes + atStart.toNat + atEnd.toNat) + frameSize atStart atEnd

/-- The one expression that takes more than the bytes of its pattern is the empty one. -/
theorem sizeLimit_lt_compiledSize (atStart atEnd : Bool) (cs : List Char) :
    RegexError.sizeLimit < (sequence (boundedLetters atStart atEnd cs)).compiledSize ↔
      RegexError.sizeLimit < lettersSize atStart atEnd (String.ofList cs).utf8ByteSize := by
  rw [compiledSize, bound_true_boundedLetters, bound_false_boundedLetters, lettersSize,
    ← sum_size_boundedLetters]
  cases h : boundedLetters atStart atEnd cs with
  | nil => cases atStart <;> cases atEnd <;> decide
  | cons r rs => rw [size_sequence (List.cons_ne_nil r rs)]

theorem parse_bounded_plain {cs : List Char} (hplain : IsPlain cs) (atStart atEnd : Bool) :
    parse (String.ofList (bounded atStart atEnd cs)) =
      if RegexError.sizeLimit < lettersSize atStart atEnd (String.ofList cs).utf8ByteSize
      then .error .tooLarge else .ok (sequence (boundedLetters atStart atEnd cs)) := by
  have hreads := reads_bounded_plain hplain atStart atEnd
  have hheight : ¬nestLimit < (Reading.ofList (boundedLetters atStart atEnd cs)).whole.height :=
    Nat.not_lt.mpr (Nat.le_trans (height_ofList _) (by decide))
  rw [parse_of_reads (by rw [String.toList_ofList]; exact hreads), if_neg hheight, regex_ofList]
  simp only [sizeLimit_lt_compiledSize]

/-! ## Matching -/

theorem mem_single {c a : Char} : (Unicode.CharSet.single c.toNat).mem a.toNat = true ↔ a = c := by
  rw [← Char.toNat_inj]
  simp [Unicode.CharSet.single, Unicode.CharSet.mem]
  omega

theorem leads_letter {c : Char} {a b : Cursor} :
    (letter c).Leads a b ↔ a.after = c :: b.after ∧ b.before = c :: a.before := by
  obtain ⟨before, after⟩ := a
  obtain ⟨before', after'⟩ := b
  unfold letter
  cases after with
  | nil => simp [Leads, Cursor.step?]
  | cons x xs =>
    simp only [Leads, Cursor.step?, mem_single]
    split_ifs with hx
    · subst hx
      simp [eq_comm, and_comm]
    · simp [hx]

theorem leads_letters {cs : List Char} {a b : Cursor} :
    (sequence (cs.map letter)).Leads a b ↔
      a.after = cs ++ b.after ∧ b.before = cs.reverse ++ a.before := by
  induction cs generalizing a with
  | nil =>
      obtain ⟨before, after⟩ := a
      obtain ⟨before', after'⟩ := b
      simp [sequence, Leads, eq_comm, and_comm]
  | cons c cs ih =>
      simp only [List.map_cons, leads_sequence_cons, leads_letter, ih, List.cons_append,
        List.reverse_cons, List.append_assoc, List.nil_append]
      constructor
      · rintro ⟨e, ⟨hafter, hbefore⟩, hafter', hbefore'⟩
        exact ⟨by rw [hafter, hafter'], by rw [hbefore', hbefore]⟩
      · rintro ⟨hafter, hbefore⟩
        exact ⟨⟨c :: a.before, cs ++ b.after⟩, ⟨hafter, rfl⟩, rfl, hbefore⟩

theorem leads_boundedLetters {atStart atEnd : Bool} {cs : List Char} {a b : Cursor} :
    (sequence (boundedLetters atStart atEnd cs)).Leads a b ↔
      (a.after = cs ++ b.after ∧ b.before = cs.reverse ++ a.before) ∧
        (atStart = true → a.before = []) ∧ (atEnd = true → b.after = []) := by
  rw [← leads_letters]
  unfold boundedLetters
  cases atStart <;> cases atEnd <;>
    simp [leads_look_sequence, leads_sequence_look, Cursor.satisfies, and_assoc, and_comm]

/-- Plain characters are matched where they stand in the text. A condition at an end leaves nothing
of the text beyond it. -/
theorem isMatch_boundedLetters {atStart atEnd : Bool} {cs : List Char} {text : String} :
    (sequence (boundedLetters atStart atEnd cs)).isMatch text = true ↔
      ∃ front back, front ++ cs ++ back = text.toList ∧ (atStart = true → front = []) ∧
        (atEnd = true → back = []) := by
  rw [isMatch_iff]
  simp only [leads_boundedLetters]
  constructor
  · rintro ⟨a, b, htext, ⟨hafter, -⟩, hstart, hend⟩
    refine ⟨a.before.reverse, b.after, ?_, by simpa using hstart, hend⟩
    rw [← htext, Cursor.text, hafter, List.append_assoc]
  · rintro ⟨front, back, htext, hstart, hend⟩
    refine ⟨⟨front.reverse, cs ++ back⟩, ⟨cs.reverse ++ front.reverse, back⟩, ?_, ⟨rfl, rfl⟩,
      by simpa using hstart, hend⟩
    rw [← htext, Cursor.text, List.reverse_reverse, List.append_assoc]

end Grove.Regex
