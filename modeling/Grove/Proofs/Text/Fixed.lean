import Mathlib.Algebra.Group.Nat.Defs
import Grove.Proofs.Text.Integer

/-!
# Numbers of a fixed width

Where a format says how many digits a number has, it is written with zeros in front. What is
written is read back if the number fits, in decimal and in hexadecimal digits.
-/

namespace Grove.Text

/-! ## Decimal digits -/

theorem length_decimalFixed (width n : Nat) : (decimalFixed width n).length = width := by
  induction width generalizing n with
  | zero => rfl
  | succ width ih => rw [decimalFixed, List.length_append, ih, List.length_singleton]

theorem hexDigit_lt_ten {n : Nat} (h : n < 10) :
    (hexDigit n).isDigit = true ∧ (hexDigit n).toNat - '0'.toNat = n := by
  have hall : ∀ d : Fin 10,
      (hexDigit d).isDigit = true ∧ (hexDigit d).toNat - '0'.toNat = d := by decide
  exact hall ⟨n, h⟩

theorem isDigit_of_mem_decimalFixed {width n : Nat} {c : Char} (h : c ∈ decimalFixed width n) :
    c.isDigit = true := by
  induction width generalizing n with
  | zero => cases h
  | succ width ih =>
      rw [decimalFixed, List.mem_append, List.mem_singleton] at h
      rcases h with h | rfl
      · exact ih h
      · exact (hexDigit_lt_ten (Nat.mod_lt n (by decide))).1

theorem digitsValue_decimalFixed {width n : Nat} (h : n < 10 ^ width) :
    digitsValue (decimalFixed width n) = n := by
  induction width generalizing n with
  | zero =>
      have hzero : n = 0 := by simpa using h
      rw [hzero]
      rfl
  | succ width ih =>
      have hrest : n / 10 < 10 ^ width := by
        rw [Nat.pow_succ] at h
        exact Nat.div_lt_of_lt_mul (Nat.mul_comm _ 10 ▸ h)
      have hfront : (decimalFixed width (n / 10)).foldl
          (fun n c => n * 10 + (c.toNat - '0'.toNat)) 0 = n / 10 := ih hrest
      rw [digitsValue, decimalFixed, List.foldl_append, hfront, List.foldl_cons, List.foldl_nil,
        (hexDigit_lt_ten (Nat.mod_lt n (by decide))).2, Nat.div_add_mod']

theorem readDigits?_decimalFixed {width n : Nat} (hwidth : 0 < width) (h : n < 10 ^ width) :
    readDigits? (decimalFixed width n) = some n := by
  have hne : (decimalFixed width n).isEmpty = false := by
    rw [List.isEmpty_eq_false_iff, ← List.length_pos_iff, length_decimalFixed]
    exact hwidth
  have hall : (decimalFixed width n).all Char.isDigit = true :=
    List.all_eq_true.mpr fun _ => isDigit_of_mem_decimalFixed
  rw [readDigits?, hne, hall, digitsValue_decimalFixed h]
  rfl

/-- Zeros in front of a number do not change it. -/
theorem readDigits?_zeros (zeros n : Nat) :
    readDigits? (List.replicate zeros '0' ++ Nat.toDigits 10 n) = some n := by
  induction zeros with
  | zero => exact readDigits?_digits n
  | succ zeros ih =>
      rw [readDigits?] at ih ⊢
      split at ih
      · cases ih
      · next h =>
          rw [Bool.or_eq_true, not_or, Bool.not_eq_true, Bool.not_eq_true, Bool.not_eq_false'] at h
          rw [List.replicate_succ, List.cons_append, List.isEmpty_cons, List.all_cons, h.2]
          exact ih

/-! ## Hexadecimal digits -/

theorem length_hexFixed (width n : Nat) : (hexFixed width n).length = width := by
  induction width generalizing n with
  | zero => rfl
  | succ width ih => rw [hexFixed, List.length_append, ih, List.length_singleton]

theorem hexValue?_hexDigit {n : Nat} (h : n < 16) : hexValue? (hexDigit n) = some n := by
  have hall : ∀ d : Fin 16, hexValue? (hexDigit d) = some d.val := by decide
  exact hall ⟨n, h⟩

theorem hexValue?_lt {c : Char} {n : Nat} (h : hexValue? c = some n) : n < 16 := by
  have hle {a b : Char} (h : a ≤ b) : a.toNat ≤ b.toNat := h
  rw [hexValue?] at h
  split at h
  · next hdigit =>
      cases h
      have hnine : c.toNat ≤ 57 := (Char.isDigit_iff_toNat.mp hdigit).2
      show c.toNat - 48 < 16
      omega
  · split at h
    · next hlower =>
        cases h
        rw [Bool.and_eq_true, decide_eq_true_eq, decide_eq_true_eq] at hlower
        have hf : c.toNat ≤ 102 := hle hlower.2
        show c.toNat - 97 + 10 < 16
        omega
    · split at h
      · next hupper =>
          cases h
          rw [Bool.and_eq_true, decide_eq_true_eq, decide_eq_true_eq] at hupper
          have hf : c.toNat ≤ 70 := hle hupper.2
          show c.toNat - 65 + 10 < 16
          omega
      · cases h

/-- A digit of a number is none of the signs that stand around numbers, and no letter that
begins a word. -/
theorem hexDigit_of_mem_hexFixed {width n : Nat} {c : Char} (h : c ∈ hexFixed width n) :
    ∃ d < 16, c = hexDigit d := by
  induction width generalizing n with
  | zero => cases h
  | succ width ih =>
      rw [hexFixed, List.mem_append, List.mem_singleton] at h
      rcases h with h | rfl
      · exact ih h
      · exact ⟨n % 16, Nat.mod_lt n (by decide), rfl⟩

/-- What a reader of digits makes of a number, when it goes on from what it has read. -/
theorem foldlM_hexFixed {width n : Nat} (h : n < 16 ^ width) :
    (hexFixed width n).foldlM (fun m c => (hexValue? c).map (m * 16 + ·)) 0 = some n := by
  induction width generalizing n with
  | zero =>
      have hzero : n = 0 := by simpa using h
      rw [hzero]
      rfl
  | succ width ih =>
      have hrest : n / 16 < 16 ^ width := by
        rw [Nat.pow_succ] at h
        exact Nat.div_lt_of_lt_mul (Nat.mul_comm _ 16 ▸ h)
      rw [hexFixed, List.foldlM_append, ih hrest, Option.bind_eq_bind, Option.bind_some,
        List.foldlM_cons, hexValue?_hexDigit (Nat.mod_lt n (by decide)), Option.map_some,
        Nat.div_add_mod']
      rfl

end Grove.Text
