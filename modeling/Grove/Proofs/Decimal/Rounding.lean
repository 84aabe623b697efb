import Grove.Proofs.Decimal.Exact

/-!
# Rounding keeps the order

An integer with more binary digits than a significand has room for becomes a neighbour of
itself, and integers that are different may become the same number. What never happens is
that two of them change places (`scaled_ofInt_mono`).

Numbers of one exponent are the multiples of one unit, and rounding to the nearest multiple
keeps the order (`roundDiv_mono`). Numbers of different exponents are kept apart by a power of
two: what is rounded with the smaller unit is rounded to the power at most, and what is rounded
with the greater one to the power at least.
-/

namespace Grove.Double

/-! ## Division -/

theorem div_le_roundDiv (num den : Nat) : num / den ≤ roundDiv num den := by
  simp only [roundDiv]
  split
  · exact Nat.le_refl _
  · split
    · exact Nat.le_succ _
    · split
      · exact Nat.le_refl _
      · exact Nat.le_succ _

theorem roundDiv_le (num den : Nat) : roundDiv num den ≤ num / den + 1 := by
  simp only [roundDiv]
  split
  · exact Nat.le_succ _
  · split
    · exact Nat.le_refl _
    · split
      · exact Nat.le_succ _
      · exact Nat.le_refl _

theorem roundDiv_mono {num num' : Nat} (h : num ≤ num') (den : Nat) :
    roundDiv num den ≤ roundDiv num' den := by
  rcases Nat.lt_or_eq_of_le (Nat.div_le_div_right (c := den) h) with hlt | heq
  · calc roundDiv num den
      _ ≤ num / den + 1 := roundDiv_le num den
      _ ≤ num' / den := hlt
      _ ≤ roundDiv num' den := div_le_roundDiv num' den
  · -- With one quotient it is the remainders that decide, and they have the order of the numbers.
    have hnum := Nat.div_add_mod num den
    have hnum' := Nat.div_add_mod num' den
    rw [← heq] at hnum'
    have hrem : num % den ≤ num' % den := by omega
    simp only [roundDiv, ← heq]
    split <;> split <;> (try split) <;> (try split) <;> (try split) <;> omega

/-! ## The unit of the last place -/

def unitOf (units : Nat) : Nat := units.log2 - 52

def nearestSize (units : Nat) : Nat := roundDiv units (twoTo (unitOf units)) * twoTo (unitOf units)

theorem twoTo_mono {m n : Nat} (h : m ≤ n) : twoTo m ≤ twoTo n := Nat.pow_le_pow_right (by decide) h

theorem log2_mono {m n : Nat} (h : m ≤ n) : m.log2 ≤ n.log2 := by
  by_cases hm : m = 0
  · rw [hm]
    exact Nat.zero_le _
  · have hn : n ≠ 0 := by omega
    exact (Nat.le_log2 hn).mpr (Nat.le_trans (Nat.log2_self_le hm) h)

/-- Fifty-three binary digits are as many as there are units. -/
theorem roundDiv_unitOf_le (units : Nat) :
    roundDiv units (twoTo (unitOf units)) ≤ 0x20000000000000 := by
  have hfew : units / twoTo (unitOf units) < twoTo 53 := by
    rw [Nat.div_lt_iff_lt_mul (twoTo_pos _), ← twoTo_add]
    calc units
      _ < twoTo (units.log2 + 1) := Nat.lt_log2_self
      _ ≤ twoTo (53 + unitOf units) := twoTo_mono (by rw [unitOf]; omega)
  calc roundDiv units (twoTo (unitOf units))
    _ ≤ units / twoTo (unitOf units) + 1 := roundDiv_le _ _
    _ ≤ twoTo 53 := hfew

/-- A unit that is not the smallest goes into the size so often that the significand has its
top bit. -/
theorem le_roundDiv_unitOf {units : Nat} (h : 52 ≤ units.log2) :
    0x10000000000000 ≤ roundDiv units (twoTo (unitOf units)) := by
  have hunits : units ≠ 0 := by
    rintro rfl
    exact absurd h (by decide)
  calc twoTo 52
    _ ≤ units / twoTo (unitOf units) := by
      rw [Nat.le_div_iff_mul_le (twoTo_pos _), ← twoTo_add, unitOf, Nat.add_sub_cancel' h]
      exact Nat.log2_self_le hunits
    _ ≤ roundDiv units (twoTo (unitOf units)) := div_le_roundDiv _ _

theorem nearestSize_mono {units units' : Nat} (h : units ≤ units') :
    nearestSize units ≤ nearestSize units' := by
  have hunit : unitOf units ≤ unitOf units' := Nat.sub_le_sub_right (log2_mono h) 52
  rcases Nat.lt_or_eq_of_le hunit with hlt | heq
  · -- Between two units lies the power of two with which the sizes of the greater one begin.
    have htop : 52 ≤ units'.log2 := by
      rw [unitOf, unitOf] at hlt
      omega
    calc nearestSize units
      _ ≤ twoTo 53 * twoTo (unitOf units) := Nat.mul_le_mul_right _ (roundDiv_unitOf_le units)
      _ = twoTo (53 + unitOf units) := (twoTo_add _ _).symm
      _ ≤ twoTo (52 + unitOf units') := twoTo_mono (by omega)
      _ = twoTo 52 * twoTo (unitOf units') := twoTo_add _ _
      _ ≤ nearestSize units' := Nat.mul_le_mul_right _ (le_roundDiv_unitOf htop)
  · rw [nearestSize, nearestSize, heq]
    exact Nat.mul_le_mul_right _ (roundDiv_mono h _)

/-! ## Integers -/

/-- A significand that does not fit is carried into the next exponent. -/
theorem exists_ofFraction?_carried {k mantissa shift : Nat} (negative : Bool)
    (hshift : unitOf (k * twoTo 1074) = shift)
    (hround : roundDiv (k * twoTo 1074) (twoTo shift) = mantissa)
    (hleast : 0x10000000000000 ≤ mantissa) (hmost : mantissa ≤ 0x20000000000000)
    (hrange : shift ≤ 2044) :
    ∃ x, ofFraction? negative k 1 = some x ∧ x.negative = negative ∧
      x.magnitude = mantissa * twoTo shift := by
  have hform : ofFraction? negative k 1 =
      if mantissa = 0x20000000000000 then ofParts? negative 0x10000000000000 (shift + 1)
      else ofParts? negative mantissa shift := by
    rw [unitOf] at hshift
    simp only [ofFraction?, Nat.div_one, Nat.one_mul, hshift, hround]
  rw [hform]
  split
  · next hcarry =>
      refine ⟨⟨negative, 0x10000000000000, shift + 1, by decide, by omega, .inr (by decide)⟩,
        by rw [ofParts?, dif_pos], rfl, ?_⟩
      calc 0x10000000000000 * twoTo (shift + 1)
        _ = 0x20000000000000 * twoTo shift := by rw [twoTo_succ]; omega
        _ = mantissa * twoTo shift := by rw [hcarry]
  · next hfits =>
      exact ⟨⟨negative, mantissa, shift, by omega, by omega, .inr hleast⟩,
        by rw [ofParts?, dif_pos], rfl, rfl⟩

/-- An integer within the range has a nearest number, and it is of the nearest size. -/
theorem exists_ofFraction?_nearest {k : Nat} (hk : k.log2 ≤ 1022) (negative : Bool) :
    ∃ x, ofFraction? negative k 1 = some x ∧ x.negative = negative ∧
      x.magnitude = nearestSize (k * twoTo 1074) := by
  by_cases hzero : k = 0
  · subst hzero
    refine ⟨⟨negative, 0, 0, by decide⟩, ofFraction?_exact negative (by simp) (by simp) _, rfl, ?_⟩
    simp [magnitude, nearestSize, roundDiv]
  · have hlog := log2_mul_twoTo hzero 1074
    have hunit : unitOf (k * twoTo 1074) = k.log2 + 1022 := by
      rw [unitOf, hlog]
      rfl
    exact exists_ofFraction?_carried negative rfl rfl (le_roundDiv_unitOf (by omega))
      (roundDiv_unitOf_le _) (by omega)

/-- The nearest number to an integer, with its sign. -/
theorem scaled_ofInt_nearest {n : Int} (h : n.natAbs.log2 ≤ 1022) :
    (ofInt n).scaled = if n < 0 then -(nearestSize (n.natAbs * twoTo 1074) : Int)
      else nearestSize (n.natAbs * twoTo 1074) := by
  obtain ⟨x, hx, hneg, hmag⟩ := exists_ofFraction?_nearest h (n < 0)
  rw [ofInt, hx, Option.getD_some, scaled, hneg, hmag]
  simp only [decide_eq_true_eq]

/-- What an integer beyond the range is rounded to is large too. -/
theorem twoTo_le_magnitude_ofInt {n : Int} (h : 1023 ≤ n.natAbs.log2) :
    twoTo 2097 ≤ (ofInt n).magnitude := by
  have hlarge {x : Double} (hshift : 2045 ≤ x.shift) : twoTo 2097 ≤ x.magnitude := by
    obtain ⟨-, -, hcanonical⟩ := x.canonical
    calc twoTo 2097
      _ = twoTo 52 * twoTo 2045 := twoTo_add 52 2045
      _ ≤ x.mantissa * twoTo x.shift := Nat.mul_le_mul (by
        change 0x10000000000000 ≤ x.mantissa
        omega) (twoTo_mono hshift)
  have hshift {x : Double} {negative : Bool} (hx : ofFraction? negative n.natAbs 1 = some x) :
      2045 ≤ x.shift := by
    have hne : n.natAbs ≠ 0 := fun hzero => by
      rw [hzero] at h
      exact absurd h (by decide)
    have hlog := log2_mul_twoTo hne 1074
    have hparts {mantissa shift : Nat} (hs : 2045 ≤ shift)
        (hof : ofParts? negative mantissa shift = some x) : 2045 ≤ x.shift := by
      rw [ofParts?] at hof
      split at hof
      · cases hof
        exact hs
      · cases hof
    simp only [ofFraction?, Nat.div_one, hlog] at hx
    split at hx
    · exact hparts (by omega) hx
    · exact hparts (by omega) hx
  rw [ofInt]
  cases hx : ofFraction? (n < 0) n.natAbs 1 with
  | some x => exact hlarge (hshift hx)
  | none =>
      rw [Option.getD_none]
      split
      · exact hlarge (x := largest.neg) (Nat.le_refl _)
      · exact hlarge (x := largest) (Nat.le_refl _)

/-- Rounded integers are in the order of the integers, or they are equal. -/
theorem scaled_ofInt_mono {m n : Int} (hm : m.natAbs.log2 ≤ 1022) (hn : n.natAbs.log2 ≤ 1022)
    (h : m ≤ n) : (ofInt m).scaled ≤ (ofInt n).scaled := by
  have hsize {k l : Int} (hle : k.natAbs ≤ l.natAbs) :
      nearestSize (k.natAbs * twoTo 1074) ≤ nearestSize (l.natAbs * twoTo 1074) :=
    nearestSize_mono (Nat.mul_le_mul_right _ hle)
  rw [scaled_ofInt_nearest hm, scaled_ofInt_nearest hn]
  split <;> split
  · have := hsize (k := n) (l := m) (by omega)
    omega
  · omega
  · omega
  · have := hsize (k := m) (l := n) (by omega)
    omega

/-! ## Integers that are numbers -/

/-- One of the numbers is the integer. -/
def IsExact (n : Int) : Prop := ∃ x : Double, x.scaled = n * twoTo 1074

theorem natAbs_scaled (x : Double) : x.scaled.natAbs = x.magnitude := by
  rw [scaled]
  split
  · rw [Int.natAbs_neg, Int.natAbs_natCast]
  · rw [Int.natAbs_natCast]

/-- A size that is a whole number of units is kept. -/
theorem nearestSize_mul {mantissa shift : Nat} (h : unitOf (mantissa * twoTo shift) ≤ shift) :
    nearestSize (mantissa * twoTo shift) = mantissa * twoTo shift := by
  rw [nearestSize]
  generalize unitOf (mantissa * twoTo shift) = unit at h
  have hunits : mantissa * twoTo shift = mantissa * twoTo (shift - unit) * twoTo unit := by
    rw [Nat.mul_assoc, ← twoTo_add, Nat.sub_add_cancel h]
  rw [hunits, roundDiv_mul (twoTo_pos unit)]

theorem nearestSize_magnitude (x : Double) : nearestSize x.magnitude = x.magnitude := by
  obtain ⟨negative, mantissa, shift, hfits, -, -⟩ := x
  by_cases hzero : mantissa = 0
  · subst hzero
    simp [magnitude, nearestSize, roundDiv]
  · have hdigits : mantissa.log2 < 53 := (Nat.log2_lt hzero).mpr hfits
    refine nearestSize_mul ?_
    rw [unitOf, log2_mul_twoTo hzero]
    omega

/-- Rounding keeps an integer exactly if it is one of the numbers. -/
theorem scaled_ofInt_eq_iff {n : Int} (h : n.natAbs.log2 ≤ 1022) :
    (ofInt n).scaled = n * twoTo 1074 ↔ IsExact n := by
  refine ⟨fun hexact => ⟨_, hexact⟩, fun ⟨x, hx⟩ => ?_⟩
  have hsize : n.natAbs * twoTo 1074 = x.magnitude := by
    rw [← natAbs_scaled, hx, Int.natAbs_mul, Int.natAbs_natCast]
  rw [scaled_ofInt_nearest h, hsize, nearestSize_magnitude, ← hsize, Int.natCast_mul]
  rcases Int.lt_or_le n 0 with hlt | hle
  · rw [if_pos hlt, ← Int.neg_mul, Int.ofNat_natAbs_of_nonpos (Int.le_of_lt hlt), Int.neg_neg]
  · rw [if_neg (Int.not_lt.mpr hle), Int.natAbs_of_nonneg hle]

theorem isExact_of_small {n : Int} (h : n.natAbs ≤ 0x20000000000000) : IsExact n :=
  ⟨ofInt n, scaled_ofInt h⟩

end Grove.Double
