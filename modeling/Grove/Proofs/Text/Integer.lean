import Grove.Text

/-!
# Integers in text

Every integer is written as a sign and digits, and those of 64 bits are read back. Reading
is held against `Nat.ofDigitChars`, which the digits of a number are known to be inverse to.
-/

namespace Grove.Text

theorem digitsValue_eq_ofDigitChars (cs : List Char) :
    digitsValue cs = Nat.ofDigitChars 10 cs 0 := by
  simp only [digitsValue, Nat.ofDigitChars_eq_foldl, Nat.mul_comm]

theorem isDigit_of_mem_digits {n : Nat} {c : Char} (h : c ∈ Nat.toDigits 10 n) :
    c.isDigit = true :=
  Nat.isDigit_of_mem_toDigits (by decide) (by decide) h

theorem readDigits?_digits (n : Nat) : readDigits? (Nat.toDigits 10 n) = some n := by
  have hall : (Nat.toDigits 10 n).all Char.isDigit = true :=
    List.all_eq_true.mpr fun _ => isDigit_of_mem_digits
  simp [readDigits?, hall, Nat.toDigits_ne_nil, digitsValue_eq_ofDigitChars]

theorem readDigits?_toString (n : Nat) : readDigits? (toString n).toList = some n := by
  rw [Nat.toString_eq_repr, Nat.repr_eq_ofList_toDigits, String.toList_ofList]
  exact readDigits?_digits n

/-- An integer is the digits of its amount, after a sign if it is negative. -/
theorem toList_toString (n : Int) :
    (toString n).toList =
      if 0 ≤ n then Nat.toDigits 10 n.toNat else '-' :: Nat.toDigits 10 (-n).toNat := by
  have h : toString n = n.repr := rfl
  rw [h, Int.repr_eq_if]
  split <;> simp [Nat.repr_eq_ofList_toDigits]

theorem readInt64?_toString {n : Int} (hlow : -0x8000000000000000 ≤ n)
    (hhigh : n < 0x8000000000000000) : readInt64? (toString n) = some n := by
  rw [readInt64?, toList_toString]
  by_cases hsign : 0 ≤ n
  · obtain ⟨d, ds, hdigits⟩ :=
      List.exists_cons_of_ne_nil (Nat.toDigits_ne_nil (n := n.toNat) (b := 10))
    have hd : d.isDigit = true := isDigit_of_mem_digits (hdigits ▸ List.mem_cons_self)
    have hread := readDigits?_digits n.toNat
    rw [if_pos hsign, hdigits]
    rw [hdigits] at hread
    -- the first digit is neither of the signs
    split
    · next heq => cases heq; cases hd
    · next heq => cases heq; cases hd
    · simp [hread, Int.toNat_of_nonneg hsign, hlow, hhigh]
  · have hread := readDigits?_digits (-n).toNat
    rw [if_neg hsign]
    simp only [hread, Option.bind_eq_bind, Option.bind_some, Option.pure_def, Option.map_some]
    have hamount : -((-n).toNat : Int) = n := by omega
    rw [hamount]
    simp [hlow, hhigh]

end Grove.Text
