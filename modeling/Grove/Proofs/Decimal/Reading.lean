import Grove.Decimal.Reading
import Grove.Proofs.Decimal.Rounding
import Grove.Proofs.Text.Numeral

/-!
# Integers read as binary64 numbers

Text that spells an integer is decimal text without a point and without an exponent. It is
read as the number that the integer is rounded to (`Binary64.read?_of_spells`).
-/

namespace Grove

namespace Double

/-- Digits alone are rounded as the integer that they are. -/
theorem exists_ofDecimal? {k : Nat} (hk : k.log2 ≤ 1022) (negative : Bool) :
    ∃ x, ofDecimal? negative k 0 = some x ∧
      x.scaled = (ofInt (if negative then -k else k)).scaled := by
  by_cases hzero : k = 0
  · subst hzero
    refine ⟨signedZero negative, rfl, ?_⟩
    cases negative <;> decide +kernel
  · obtain ⟨x, hx, hnegative, hmagnitude⟩ := exists_ofFraction?_nearest hk negative
    refine ⟨x, ?_, ?_⟩
    · rw [ofDecimal?, if_neg hzero, if_neg (by decide), if_neg (by omega), if_pos (Int.le_refl 0)]
      simpa using hx
    · rw [scaled, hnegative, hmagnitude]
      cases negative with
      | true =>
          have hamount : (-(k : Int)).natAbs = k := by rw [Int.natAbs_neg, Int.natAbs_natCast]
          rw [if_pos rfl, if_pos rfl, scaled_ofInt_nearest (by rwa [hamount]), if_pos (by omega),
            hamount]
      | false =>
          rw [if_neg Bool.false_ne_true, if_neg Bool.false_ne_true,
            scaled_ofInt_nearest (by rwa [Int.natAbs_natCast]), if_neg (by omega),
            Int.natAbs_natCast]

end Double

namespace Binary64

variable {ds : List Char} {n : Nat}

theorem readUnsigned?_of_numeral (h : Text.Numeral ds n) {negative : Bool} {x : Double}
    (hx : Double.ofDecimal? negative n 0 = some x) :
    readUnsigned? negative ds = some (.finite x) := by
  have hwhole : ds.takeWhile Char.isDigit = ds := List.takeWhile_eq_self_iff.mpr h.digits
  have hrest : ds.dropWhile Char.isDigit = [] := List.dropWhile_eq_nil_iff.mpr h.digits
  have hvalue : Text.digitsValue ds = n := by rw [Text.digitsValue_eq_ofDigitChars, h.value]
  have hexponent : readExponent? [] = some 0 := rfl
  simp [readUnsigned?, hwhole, hrest, h.nonempty, hvalue, hexponent, hx]

/-- The words that are read in the place of a number have letters, which no numeral has. -/
theorem lower_ne_of_numeral (h : Text.Numeral ds n) {word : String}
    (hword : ∃ c ∈ word.toList, c.isDigit = false) : Text.lower (String.ofList ds) ≠ word := by
  rintro rfl
  obtain ⟨c, hc, hletter⟩ := hword
  rw [Text.lower, String.toList_ofList, String.toList_ofList] at hc
  obtain ⟨d, hd, rfl⟩ := List.mem_map.mp hc
  have hdigit := h.digits d hd
  have hother : ¬ (d.val ≥ 'A'.val ∧ d.val ≤ 'Z'.val) := by
    have hnine : d.toNat ≤ 57 := (Char.isDigit_iff_toNat.mp hdigit).2
    rintro ⟨hupper, -⟩
    have hA : 65 ≤ d.toNat := hupper
    omega
  have hlower : d.toLower = d := dif_neg hother
  rw [hlower, hdigit] at hletter
  cases hletter

/-- An integer of any usual size is read as the number that it is rounded to. -/
theorem read?_of_spells {s : String} {m : Int} (h : Text.Spells s.toList m)
    (hm : m.natAbs.log2 ≤ 1022) :
    ∃ x, read? s = some (.finite x) ∧ x.scaled = (Double.ofInt m).scaled := by
  rw [read?]
  generalize s.toList = cs at h
  split
  next negative digits heq =>
    have hnumeral : ∃ n : Nat, Text.Numeral digits n ∧
        m = if negative then -(n : Int) else n := by
      split at heq
      · cases heq
        exact Text.spells_minus.mp h
      · cases heq
        obtain ⟨n, hcounts, rfl⟩ := (Text.spells_iff fun _ hne => by cases hne).mp h
        exact ⟨n, Text.counts_plus.mp hcounts, rfl⟩
      · next hminus hplus =>
          cases heq
          obtain ⟨n, hcounts, rfl⟩ := (Text.spells_iff fun ds hs => hminus ds hs).mp h
          exact ⟨n, (Text.counts_iff fun ds hs => hplus ds hs).mp hcounts, rfl⟩
    obtain ⟨n, hn, rfl⟩ := hnumeral
    have hsize : n.log2 ≤ 1022 := by
      cases negative
      · exact hm
      · rwa [if_pos rfl, Int.natAbs_neg] at hm
    obtain ⟨x, hx, hscaled⟩ := Double.exists_ofDecimal? hsize negative
    refine ⟨x, ?_, hscaled⟩
    split
    · next heq => exact absurd heq (lower_ne_of_numeral hn ⟨'i', by decide, rfl⟩)
    · next heq => exact absurd heq (lower_ne_of_numeral hn ⟨'i', by decide, rfl⟩)
    · next heq => exact absurd heq (lower_ne_of_numeral hn ⟨'n', by decide, rfl⟩)
    · exact readUnsigned?_of_numeral hn hx

end Binary64

end Grove
