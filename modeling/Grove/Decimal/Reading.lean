import Grove.Decimal.Double
import Grove.Text

/-!
# Reading decimals

Three readers of decimal text, which differ in where they round.

* `Double.ofDecimal?` rounds once, to the nearest number.
* `Double.ofScaled?` is the rule for numbers in JSON text: the digits are rounded, the
  power of ten is rounded, and their product or quotient is rounded again. For up to
  fifteen digits and small exponents that is the nearest number; beyond that it can be a
  neighbour of it.
* `Binary64.read?` reads text that may also write an infinity or a number that is none,
  rounding once. A number beyond the range reads as an infinity.
-/

namespace Grove

namespace Double

def signedZero (negative : Bool) : Double := { zero with negative }

/-- The nearest number to `± digits * 10 ^ place`, unless that is beyond the range.
Exponents far beyond the range are settled without computing the power. -/
def ofDecimal? (negative : Bool) (digits : Nat) (place : Int) : Option Double :=
  if digits = 0 then some (signedZero negative)
  else if 400 < place then none
  else if place < -(400 + (Nat.log2 digits : Int)) then some (signedZero negative)
  else if 0 ≤ place then ofFraction? negative (digits * tenTo place.toNat) 1
  else ofFraction? negative digits (tenTo (-place).toNat)

/-- Divides by `10 ^ places`, at most 10^308 at a time. Three divisions take any
significand to zero, and the first argument bounds them. -/
def divideByTens (x : Double) : Nat → Nat → Option Double
  | fuel + 1, places =>
    if places ≤ 308 then x.div? (powerOfTen places)
    else if x.isZero then some x
    else do divideByTens (← x.div? (powerOfTen 308)) fuel (places - 308)
  | 0, _ => some (signedZero x.negative)

/-- The number that JSON text with these digits and this place of the last digit stands
for; nothing when it is beyond the range. -/
def ofScaled? (negative : Bool) (significand : Nat) (place : Int) : Option Double := do
  let x := ofInt significand
  let y ←
    if place < 0 then x.divideByTens 5 (-place).toNat
    else if x.isZero then some x
    else if 308 < place then none
    else x.mul? (powerOfTen place.toNat)
  some { y with negative }

end Double

namespace Binary64

/-- Reads `e` or `E`, an optional sign and digits, or nothing at all. -/
def readExponent? (cs : List Char) : Option Int :=
  match cs with
  | [] => some 0
  | e :: rest =>
    if e != 'e' && e != 'E' then none
    else
      match rest with
      | '-' :: ds => (Text.readDigits? ds).map fun n => -(n : Int)
      | '+' :: ds => (Text.readDigits? ds).map Int.ofNat
      | ds => (Text.readDigits? ds).map Int.ofNat

/-- Reads digits with at most one point among them and an optional exponent. A digit is
required before the exponent, a point is not. -/
def readUnsigned? (negative : Bool) (cs : List Char) : Option Binary64 := do
  let whole := cs.takeWhile Char.isDigit
  let rest := cs.dropWhile Char.isDigit
  let (fraction, tail) := match rest with
    | '.' :: rest => (rest.takeWhile Char.isDigit, rest.dropWhile Char.isDigit)
    | rest => ([], rest)
  let digits := whole ++ fraction
  if digits.isEmpty then none
  let exponent ← readExponent? tail
  let place := exponent - fraction.length
  match Double.ofDecimal? negative (Text.digitsValue digits) place with
  | some x => some (.finite x)
  | none => some (.infinite negative)

/-- Reads a number with an optional sign, or `inf`, `infinity` or `nan` in any case. -/
def read? (s : String) : Option Binary64 :=
  let (negative, cs) := match s.toList with
    | '-' :: cs => (true, cs)
    | '+' :: cs => (false, cs)
    | cs => (false, cs)
  match Text.lower (String.ofList cs) with
  | "inf" | "infinity" => some (.infinite negative)
  | "nan" => some (.nan negative)
  | _ => readUnsigned? negative cs

end Binary64

end Grove
