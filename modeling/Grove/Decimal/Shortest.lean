import Grove.Decimal.Double

/-!
# The shortest digits of a number

The digits written for a number are the fewest that read back as the same number and,
of those, the nearest to it. The reals that read back as a number are an interval
around it (`Double.readsBack`). On the grid of decimals with a given last place, if any
point lies in the interval then one of the number's two neighbours on that grid does; so
going from one digit to seventeen and testing the two neighbours finds the answer.

Everything is exact arithmetic on natural numbers: a decimal point `c * 10 ^ place` is
compared with a boundary by multiplying both sides out.
-/

namespace Grove

/-- Digits without trailing zeros and the place of the last of them: `digits * 10 ^ place`. -/
structure Decimal where
  digits : Nat
  place : Int
deriving DecidableEq

namespace Decimal

/-- The power of ten that multiplies the digits, and the one that divides them. -/
def numerator (d : Decimal) : Nat := d.digits * tenTo d.place.toNat

def denominator (d : Decimal) : Nat := tenTo (-d.place).toNat

/-- Drops trailing zeros. The first argument bounds how many there are. -/
def strip : Nat → Nat → Int → Decimal
  | fuel + 1, digits, place =>
    if digits ≠ 0 ∧ digits % 10 = 0 then strip fuel (digits / 10) (place + 1) else ⟨digits, place⟩
  | 0, digits, place => ⟨digits, place⟩

end Decimal

namespace Double

/-- Whether a positive decimal reads back as the positive number `x`: it lies no further
than half a unit of the last place above or below, where the unit below is half as large
if the significand is the smallest of its exponent. The ends belong to the interval when
the significand is even. All is measured in quarters of 2^-1074. -/
def readsBack (x : Double) (d : Decimal) : Bool :=
  let unit := twoTo x.shift
  let below := if x.mantissa = 0x10000000000000 ∧ x.shift ≠ 0 then unit else 2 * unit
  let low := 4 * x.magnitude - below
  let high := 4 * x.magnitude + 2 * unit
  let point := d.numerator * twoTo 1076
  let scale := d.denominator
  if x.mantissa % 2 = 0 then low * scale ≤ point && point ≤ high * scale
  else low * scale < point && point < high * scale

/-- The distance from a decimal to the number, times a factor that depends on the place
alone. -/
def gapTo (x : Double) (d : Decimal) : Nat :=
  let point := d.numerator * twoTo 1074
  let value := x.magnitude * d.denominator
  if point ≤ value then value - point else point - value

/-- The first of the decimal places `p`, `p - 1`, … for which `10 ^ p` is no larger than
the number. -/
def leadingPlace (x : Double) : Nat → Int → Int
  | fuel + 1, p =>
    if (⟨1, p⟩ : Decimal).numerator * twoTo 1074 ≤
        x.magnitude * (⟨1, p⟩ : Decimal).denominator then p
    else leadingPlace x fuel (p - 1)
  | 0, p => p

/-- An upper bound of the leading place, at most two too large: three decimal digits take
nearly ten binary ones. -/
def placeBound (x : Double) : Int :=
  ((Nat.log2 x.magnitude : Int) - 1074) * 30103 / 100000 + 1

/-- Of the two neighbours of the number on a grid, the nearer that reads back; an exact
tie goes to the even one. -/
def nearest? (x : Double) (place : Int) : Option Decimal :=
  let unit : Decimal := ⟨1, place⟩
  let floor := x.magnitude * unit.denominator / (unit.numerator * twoTo 1074)
  let down : Decimal := ⟨floor, place⟩
  let up : Decimal := ⟨floor + 1, place⟩
  match x.readsBack down, x.readsBack up with
  | false, false => none
  | true, false => some down
  | false, true => some up
  | true, true =>
    if x.gapTo down < x.gapTo up then some down
    else if x.gapTo up < x.gapTo down then some up
    else if floor % 2 = 0 then some down else some up

def refine (x : Double) : Nat → Int → Decimal
  | fuel + 1, place => (x.nearest? place).getD (refine x fuel (place - 1))
  | 0, place => ⟨0, place⟩

/-- The shortest decimal that reads back as the size of the number. -/
def shortest (x : Double) : Decimal :=
  if x.isZero then ⟨0, 0⟩
  else
    let lead := x.leadingPlace 4 x.placeBound
    let d := x.refine 18 lead
    Decimal.strip 18 d.digits d.place

end Double

end Grove
