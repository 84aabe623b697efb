import Grove.Decimal.Double

/-!
# Integers that binary64 holds exactly

The nearest number to an integer of at most 2^53 is that integer. Rounding is one
division with remainder, and for such an integer the division leaves none: it has at most
fifty-three binary digits, which is what a significand has room for, and 2^53 itself is
carried into the next exponent.

So among these integers the order of the binary64 numbers is the order of the integers.
-/

namespace Grove

theorem twoTo_add (m n : Nat) : twoTo (m + n) = twoTo m * twoTo n := Nat.pow_add 2 m n

namespace Double

theorem log2_mul_twoTo {k : Nat} (hk : k ≠ 0) (n : Nat) : (k * twoTo n).log2 = k.log2 + n := by
  have hpos := twoTo_pos n
  rw [Nat.log2_eq_iff (Nat.mul_ne_zero hk (Nat.ne_of_gt hpos))]
  constructor
  · rw [Nat.pow_add]
    exact Nat.mul_le_mul_right _ (Nat.log2_self_le hk)
  · rw [show k.log2 + n + 1 = k.log2 + 1 + n by omega, Nat.pow_add]
    exact Nat.mul_lt_mul_of_pos_right Nat.lt_log2_self hpos

theorem roundDiv_mul {den : Nat} (h : 0 < den) (q : Nat) : roundDiv (q * den) den = q := by
  simp only [roundDiv, Nat.mul_div_cancel q h, Nat.mul_mod_left]
  rw [if_pos (by omega)]

theorem ofFraction?_exact {k mantissa shift : Nat} (negative : Bool)
    (hshift : (k * twoTo 1074).log2 - 52 = shift)
    (hunits : k * twoTo 1074 = mantissa * twoTo shift)
    (hc : mantissa < 0x20000000000000 ∧ shift ≤ 2045 ∧ (shift = 0 ∨ 0x10000000000000 ≤ mantissa)) :
    ofFraction? negative k 1 = some ⟨negative, mantissa, shift, hc⟩ := by
  have hround : roundDiv (k * twoTo 1074) (1 * twoTo shift) = mantissa := by
    rw [Nat.one_mul, hunits, roundDiv_mul (twoTo_pos shift)]
  have hsmall : mantissa ≠ 0x20000000000000 := Nat.ne_of_lt hc.1
  simp only [ofFraction?, Nat.div_one, hshift, hround, if_neg hsmall, ofParts?, dif_pos hc]

/-- An integer with at most fifty-three binary digits keeps all of them. -/
theorem exists_ofFraction? {k : Nat} (hk : k ≤ 0x20000000000000) (negative : Bool) :
    ∃ x, ofFraction? negative k 1 = some x ∧ x.negative = negative ∧
      x.magnitude = k * twoTo 1074 := by
  by_cases hzero : k = 0
  · subst hzero
    exact ⟨⟨negative, 0, 0, by decide⟩, ofFraction?_exact negative (by simp) (by simp) _, rfl,
      by simp [magnitude]⟩
  · have hlog := log2_mul_twoTo hzero 1074
    have hlow : twoTo k.log2 ≤ k := Nat.log2_self_le hzero
    have hhigh : k < twoTo (k.log2 + 1) := Nat.lt_log2_self
    by_cases htop : k = 0x20000000000000
    · have hk53 : k.log2 = 53 := by rw [htop]; decide
      have hunits : k * twoTo 1074 = 0x10000000000000 * twoTo 1075 := by
        have hnext : twoTo 1075 = twoTo 1074 * 2 := twoTo_succ 1074
        rw [htop, hnext]
        omega
      refine ⟨⟨negative, 0x10000000000000, 1075, by decide⟩,
        ofFraction?_exact negative (by omega) hunits _, rfl, ?_⟩
      rw [magnitude, hunits]
    · have hlog52 : k.log2 ≤ 52 := by
        have hlt : k.log2 < 53 := (Nat.log2_lt hzero).mpr (by omega)
        omega
      have hsplit : twoTo 1074 = twoTo (52 - k.log2) * twoTo (k.log2 + 1022) := by
        rw [← twoTo_add, show 52 - k.log2 + (k.log2 + 1022) = 1074 by omega]
      have hunits : k * twoTo 1074 = k * twoTo (52 - k.log2) * twoTo (k.log2 + 1022) := by
        rw [hsplit, Nat.mul_assoc]
      have hleast : 0x10000000000000 ≤ k * twoTo (52 - k.log2) := by
        calc 0x10000000000000 = twoTo (k.log2 + (52 - k.log2)) := by
              rw [Nat.add_sub_of_le hlog52]
              decide
          _ = twoTo k.log2 * twoTo (52 - k.log2) := twoTo_add _ _
          _ ≤ k * twoTo (52 - k.log2) := Nat.mul_le_mul_right _ hlow
      have hmost : k * twoTo (52 - k.log2) < 0x20000000000000 := by
        calc k * twoTo (52 - k.log2) < twoTo (k.log2 + 1) * twoTo (52 - k.log2) :=
              Nat.mul_lt_mul_of_pos_right hhigh (twoTo_pos _)
          _ = twoTo (k.log2 + 1 + (52 - k.log2)) := (twoTo_add _ _).symm
          _ = 0x20000000000000 := by
              rw [show k.log2 + 1 + (52 - k.log2) = 53 by omega]
              decide
      refine ⟨⟨negative, k * twoTo (52 - k.log2), k.log2 + 1022, hmost, by omega, .inr hleast⟩,
        ofFraction?_exact negative (by omega) hunits _, rfl, ?_⟩
      rw [magnitude, hunits]

/-- Integers up to 2^53 are binary64 numbers. -/
theorem scaled_ofInt {n : Int} (h : n.natAbs ≤ 0x20000000000000) :
    (ofInt n).scaled = n * twoTo 1074 := by
  obtain ⟨x, hx, hneg, hmag⟩ := exists_ofFraction? h (n < 0)
  rw [ofInt, hx, Option.getD_some, scaled, hneg, hmag]
  rcases Int.lt_or_le n 0 with hlt | hle
  · rw [if_pos (by simpa using hlt), Int.natCast_mul, ← Int.neg_mul]
    congr 1
    omega
  · rw [if_neg (by simpa using hle), Int.natCast_mul]
    congr 1
    omega

end Double

end Grove
