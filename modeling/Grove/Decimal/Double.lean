import Grove.Decimal.Power

/-!
# Finite binary64 numbers

A finite binary64 number is a sign, a significand below 2^53 and an exponent. Kept that
way, and not as machine words, each number is a whole multiple of 2^-1074
(`Double.scaled`), so comparing two numbers is comparing two integers and rounding a
fraction is one division with remainder.

`Double.ofFraction?` rounds a fraction to the nearest number, a tie to the even
significand. It has no answer exactly when the fraction is beyond the range.
-/

namespace Grove

/-- The number `± mantissa * 2 ^ (shift - 1074)`. The significand of a number above the
smallest exponent has its top bit set, so every number but zero has one form. -/
structure Double where
  negative : Bool
  mantissa : Nat
  shift : Nat
  canonical : mantissa < 0x20000000000000 ∧ shift ≤ 2045 ∧ (shift = 0 ∨ 0x10000000000000 ≤ mantissa)
deriving DecidableEq

namespace Double

def zero : Double := ⟨false, 0, 0, by decide⟩

instance : Inhabited Double := ⟨zero⟩

def largest : Double := ⟨false, 0x1FFFFFFFFFFFFF, 2045, by decide⟩

/-- The size of the number, in units of 2^-1074. -/
def magnitude (x : Double) : Nat := x.mantissa * twoTo x.shift

def scaled (x : Double) : Int := if x.negative then -(x.magnitude : Int) else x.magnitude

/-- The order of the numbers. Both zeros are equal. -/
def cmp (x y : Double) : Ordering := compare x.scaled y.scaled

def same (x y : Double) : Bool := x.scaled == y.scaled

def isZero (x : Double) : Bool := x.mantissa == 0

def neg (x : Double) : Double := { x with negative := !x.negative }

/-- The nearest whole number to a fraction, a tie to the even one. -/
def roundDiv (num den : Nat) : Nat :=
  let q := num / den
  let r := num % den
  if 2 * r < den then q
  else if den < 2 * r then q + 1
  else if q % 2 = 0 then q else q + 1

def ofParts? (negative : Bool) (mantissa shift : Nat) : Option Double :=
  if h : mantissa < 0x20000000000000 ∧ shift ≤ 2045 ∧ (shift = 0 ∨ 0x10000000000000 ≤ mantissa) then
    some ⟨negative, mantissa, shift, h⟩
  else none

/-- The nearest number to `± num / den`, unless that is beyond the range. -/
def ofFraction? (negative : Bool) (num den : Nat) : Option Double :=
  let units := num * twoTo 1074
  let shift := Nat.log2 (units / den) - 52
  let mantissa := roundDiv units (den * twoTo shift)
  if mantissa = 0x20000000000000 then ofParts? negative 0x10000000000000 (shift + 1)
  else ofParts? negative mantissa shift

/-- The nearest number to an integer, and the largest number to one beyond the range. -/
def ofInt (n : Int) : Double :=
  (ofFraction? (n < 0) n.natAbs 1).getD (if n < 0 then largest.neg else largest)

def mul? (x y : Double) : Option Double :=
  ofFraction? (x.negative != y.negative) (x.magnitude * y.magnitude) (twoTo 2148)

/-- The rounded quotient; the divisor is not zero. -/
def div? (x y : Double) : Option Double :=
  ofFraction? (x.negative != y.negative) x.magnitude y.magnitude

/-- The nearest number to a power of ten, for exponents up to 308. -/
def powerOfTen (exponent : Nat) : Double := (ofFraction? false (tenTo exponent) 1).getD largest

/-- The sixty-four bits of the interchange format. -/
def toBits (x : Double) : Nat :=
  let sign := if x.negative then 0x8000000000000000 else 0
  if x.mantissa < 0x10000000000000 then sign + x.mantissa
  else sign + (x.shift + 1) * 0x10000000000000 + (x.mantissa - 0x10000000000000)

end Double

inductive Binary64 where
  | finite (x : Double)
  | infinite (negative : Bool)
  | nan (negative : Bool)
deriving DecidableEq

def Binary64.toBits : Binary64 → Nat
  | .finite x => x.toBits
  | .infinite negative => (if negative then 0x8000000000000000 else 0) + 0x7FF0000000000000
  | .nan negative => (if negative then 0x8000000000000000 else 0) + 0x7FF8000000000000

end Grove
