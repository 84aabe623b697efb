import Grove.Proofs.Text.Integer
import Grove.Proofs.Text.Trim

/-!
# Numerals

What it is for a text to write an integer is said here without a reader: decimal digits, any
zeros in front of them, and a sign before them or none. The readers of whole numbers accept
exactly these texts, each within its range (`readNat?_eq_some_iff`, `readInt64?_eq_some_iff`),
and every integer is written by its usual text (`writes_toString`).
-/

namespace Grove.Text

/-- The digits are a decimal numeral of the number. -/
structure Numeral (ds : List Char) (n : Nat) : Prop where
  nonempty : ds ≠ []
  digits : ∀ d ∈ ds, d.isDigit = true
  value : Nat.ofDigitChars 10 ds 0 = n

/-- The text is a numeral, with a plus sign or without. -/
inductive Counts : List Char → Nat → Prop
  | plain {ds : List Char} {n : Nat} (h : Numeral ds n) : Counts ds n
  | plus {ds : List Char} {n : Nat} (h : Numeral ds n) : Counts ('+' :: ds) n

/-- The text is a numeral, with a sign or without. -/
inductive Spells : List Char → Int → Prop
  | unsigned {cs : List Char} {n : Nat} (h : Counts cs n) : Spells cs n
  | minus {ds : List Char} {n : Nat} (h : Numeral ds n) : Spells ('-' :: ds) (-n)

/-- What is left of the text between blanks writes the integer. -/
def Writes (s : String) (n : Int) : Prop := Spells (trimChars s.toList) n

variable {ds cs : List Char} {n : Nat}

theorem readDigits?_eq_some_iff : readDigits? ds = some n ↔ Numeral ds n := by
  rw [readDigits?, digitsValue_eq_ofDigitChars]
  constructor
  · intro h
    split at h
    · cases h
    · next hdigits =>
        rw [Bool.or_eq_true, not_or, Bool.not_eq_true, Bool.not_eq_true, Bool.not_eq_false']
          at hdigits
        exact ⟨List.isEmpty_eq_false_iff.mp hdigits.1, List.all_eq_true.mp hdigits.2,
          Option.some.inj h⟩
  · rintro ⟨hnonempty, hdigits, hvalue⟩
    rw [List.isEmpty_eq_false_iff.mpr hnonempty, List.all_eq_true.mpr hdigits, hvalue]
    rfl

theorem Numeral.of_digits (n : Nat) : Numeral (Nat.toDigits 10 n) n :=
  readDigits?_eq_some_iff.mp (readDigits?_digits n)

/-- A numeral begins with a digit, so with none of the signs. -/
theorem not_numeral_cons {c : Char} (hc : c.isDigit = false) : ¬ Numeral (c :: ds) n := by
  intro h
  rw [h.digits c List.mem_cons_self] at hc
  cases hc

theorem counts_plus : Counts ('+' :: ds) n ↔ Numeral ds n := by
  constructor
  · rintro (h | h)
    · exact absurd h (not_numeral_cons rfl)
    · exact h
  · exact .plus

theorem counts_iff (h : ∀ ds, cs ≠ '+' :: ds) : Counts cs n ↔ Numeral cs n := by
  constructor
  · rintro (hcs | hds)
    · exact hcs
    · exact absurd rfl (h _)
  · exact .plain

/-- What is kept of an answer is what it is if it passes. -/
theorem bind_ite_eq_some_iff {α : Type} {p : α → Prop} [DecidablePred p] {answer : Option α}
    {a : α} :
    (answer >>= fun b => if p b then some b else none) = some a ↔ answer = some a ∧ p a := by
  cases answer with
  | none => simp
  | some b =>
      by_cases hb : p b
      · simp only [Option.bind_eq_bind, Option.bind_some, if_pos hb]
        exact ⟨fun h => ⟨h, Option.some.inj h ▸ hb⟩, And.left⟩
      · simp only [Option.bind_eq_bind, Option.bind_some, if_neg hb]
        exact ⟨nofun, fun ⟨h, ha⟩ => absurd (Option.some.inj h ▸ ha) hb⟩

/-- What is read as a whole number is what counts one that is not too large. -/
theorem readNat?_eq_some_iff {largest : Nat} {s : String} :
    readNat? largest s = some n ↔ Counts s.toList n ∧ n ≤ largest := by
  rw [readNat?, bind_ite_eq_some_iff, readDigits?_eq_some_iff]
  split
  · next ds heq => rw [heq, counts_plus]
  · next hplain => rw [counts_iff fun ds heq => hplain ds heq]

theorem spells_minus {m : Int} : Spells ('-' :: ds) m ↔ ∃ n, Numeral ds n ∧ m = -n := by
  constructor
  · rintro ((h | h) | h)
    · exact absurd h (not_numeral_cons rfl)
    · exact ⟨_, h, rfl⟩
  · rintro ⟨n, h, rfl⟩
    exact .minus h

theorem spells_iff {m : Int} (h : ∀ ds, cs ≠ '-' :: ds) :
    Spells cs m ↔ ∃ n : Nat, Counts cs n ∧ m = n := by
  constructor
  · rintro (hcs | hds)
    · exact ⟨_, hcs, rfl⟩
    · exact absurd rfl (h _)
  · rintro ⟨n, h, rfl⟩
    exact .unsigned h

theorem Counts.unique {n' : Nat} (h : Counts cs n) (h' : Counts cs n') : n = n' := by
  cases h with
  | plain h =>
      cases h' with
      | plain h' => exact h.value.symm.trans h'.value
      | plus _ => exact absurd h (not_numeral_cons rfl)
  | plus h => exact h.value.symm.trans (counts_plus.mp h').value

theorem Spells.unique {m m' : Int} (h : Spells cs m) (h' : Spells cs m') : m = m' := by
  by_cases hminus : ∃ ds, cs = '-' :: ds
  · obtain ⟨ds, rfl⟩ := hminus
    obtain ⟨n, hn, rfl⟩ := spells_minus.mp h
    obtain ⟨n', hn', rfl⟩ := spells_minus.mp h'
    rw [← hn.value, ← hn'.value]
  · have hplain : ∀ ds, cs ≠ '-' :: ds := fun ds heq => hminus ⟨ds, heq⟩
    obtain ⟨n, hn, rfl⟩ := (spells_iff hplain).mp h
    obtain ⟨n', hn', rfl⟩ := (spells_iff hplain).mp h'
    rw [hn.unique hn']

/-- What is read as an integer of sixty-four bits is what spells one. -/
theorem readInt64?_eq_some_iff {s : String} {m : Int} :
    readInt64? s = some m ↔
      Spells s.toList m ∧ -0x8000000000000000 ≤ m ∧ m < 0x8000000000000000 := by
  have hrange : (decide (-0x8000000000000000 ≤ m) && decide (m < 0x8000000000000000)) = true ↔
      -0x8000000000000000 ≤ m ∧ m < 0x8000000000000000 := by
    rw [Bool.and_eq_true, decide_eq_true_eq, decide_eq_true_eq]
  have hcounted {ds : List Char} :
      (readDigits? ds).map Int.ofNat = some m ↔ ∃ n : Nat, Numeral ds n ∧ m = n := by
    simp only [Option.map_eq_some_iff, readDigits?_eq_some_iff, Int.ofNat_eq_natCast,
      eq_comm (b := m)]
  simp only [readInt64?]
  split
  · next ds heq =>
      rw [bind_ite_eq_some_iff, hrange, heq, spells_minus, Option.map_eq_some_iff]
      simp only [Option.bind_eq_bind, Option.bind_eq_some_iff, readDigits?_eq_some_iff,
        Option.pure_def, Option.some.injEq]
      constructor
      · rintro ⟨⟨_, ⟨n, hn, rfl⟩, rfl⟩, hm⟩
        exact ⟨⟨n, hn, rfl⟩, hm⟩
      · rintro ⟨⟨n, hn, rfl⟩, hm⟩
        exact ⟨⟨n, ⟨n, hn, rfl⟩, rfl⟩, hm⟩
  · next ds heq =>
      have hplus : ∀ rest, s.toList ≠ '-' :: rest := by
        intro rest hminus
        rw [heq] at hminus
        cases hminus
      rw [bind_ite_eq_some_iff, hrange, hcounted, spells_iff hplus, heq]
      simp only [counts_plus]
  · next hminus hplus =>
      rw [bind_ite_eq_some_iff, hrange, hcounted, spells_iff fun ds heq => hminus ds heq]
      simp only [counts_iff fun ds heq => hplus ds heq]

theorem spells_toString (m : Int) : Spells (toString m).toList m := by
  rw [toList_toString]
  split
  · next h =>
      have hspells := Spells.unsigned (.plain (.of_digits m.toNat))
      rwa [Int.toNat_of_nonneg h] at hspells
  · next h =>
      exact spells_minus.mpr ⟨(-m).toNat, .of_digits _, by omega⟩

theorem isBlank_eq_false_of_isDigit {c : Char} (h : c.isDigit = true) : isBlank c = false := by
  have hrange : 48 ≤ c.toNat ∧ c.toNat ≤ 57 := Char.isDigit_iff_toNat.mp h
  simp only [isBlank, Bool.or_eq_false_iff, Bool.and_eq_false_iff, beq_eq_false_iff_ne,
    decide_eq_false_iff_not]
  omega

/-- Without blanks there is nothing to trim. -/
theorem trimChars_of_not_blank (h : ∀ c ∈ cs, isBlank c = false) : trimChars cs = cs := by
  obtain ⟨lead, trail, hcs, hlead, htrail⟩ := trimChars_eq cs
  have hnone {gap : List Char} (hgap : gap ⊆ cs) (hblank : ∀ c ∈ gap, isBlank c = true) :
      gap = [] := by
    refine List.eq_nil_iff_forall_not_mem.mpr fun c hc => ?_
    have hfalse := h c (hgap hc)
    rw [hblank c hc] at hfalse
    cases hfalse
  obtain rfl : lead = [] := hnone (fun c hc => hcs ▸ List.mem_append_left _ hc) hlead
  obtain rfl : trail = [] := hnone (fun c hc => hcs ▸ List.mem_append_right _
    (List.mem_append_right _ hc)) htrail
  rw [List.nil_append, List.append_nil] at hcs
  exact hcs.symm

theorem Spells.not_blank {m : Int} (h : Spells cs m) : ∀ c ∈ cs, isBlank c = false := by
  have hnumeral {ds : List Char} {n : Nat} (h : Numeral ds n) : ∀ c ∈ ds, isBlank c = false :=
    fun c hc => isBlank_eq_false_of_isDigit (h.digits c hc)
  rcases h with (h | h) | h
  · exact hnumeral h
  · exact List.forall_mem_cons.mpr ⟨by decide, hnumeral h⟩
  · exact List.forall_mem_cons.mpr ⟨by decide, hnumeral h⟩

theorem writes_toString (m : Int) : Writes (toString m) m := by
  rw [Writes, trimChars_of_not_blank (spells_toString m).not_blank]
  exact spells_toString m

end Grove.Text
