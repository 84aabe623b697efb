import Grove.Decimal.Power
import Grove.Text

/-!
# Instants

An instant is a number of nanoseconds from the start of the year 2000, in universal
time. Its text is a date, a time and the distance of the local clock, in the form of
RFC 3339. Every day has as many seconds as every other; second 60 of a minute is second
0 of the next one.
-/

namespace Grove

structure Instant where
  nanoseconds : Int
deriving DecidableEq, Inhabited

namespace Instant

def isLeapYear (year : Int) : Bool := year % 4 = 0 && (year % 100 ≠ 0 || year % 400 = 0)

def daysInMonth (year : Int) (month : Nat) : Nat :=
  if month = 2 then if isLeapYear year then 29 else 28
  else if month = 4 || month = 6 || month = 9 || month = 11 then 30
  else 31

def daysBeforeYear (year : Int) : Int :=
  let y := year - 1
  365 * y + y / 4 - y / 100 + y / 400

def daysBeforeMonth (year : Int) (month : Nat) : Nat :=
  (List.range (month - 1)).foldl (fun days i => days + daysInMonth year (i + 1)) 0

/-- The days from the start of the year 2000 to a date. -/
def daysTo (year : Int) (month day : Nat) : Int :=
  daysBeforeYear year - daysBeforeYear 2000 + daysBeforeMonth year month + day - 1

def takeDigits (n : Nat) (cs : List Char) : Option (Nat × List Char) := do
  let ds := cs.take n
  if ds.length < n then none
  let value ← Text.readDigits? ds
  some (value, cs.drop n)

def takeChar (c : Char) : List Char → Option (List Char)
  | d :: rest => if d = c then some rest else none
  | [] => none

/-- Takes a fraction of a second, in nanoseconds. Digits after the ninth are dropped. -/
def takeFraction : List Char → Option (Nat × List Char)
  | '.' :: cs =>
    let ds := cs.takeWhile Char.isDigit
    if ds.isEmpty then none
    else
      let kept := ds.take 9
      some (Text.digitsValue kept * tenTo (9 - kept.length), cs.dropWhile Char.isDigit)
  | cs => some (0, cs)

/-- Takes the distance of the local clock from universal time, in seconds. -/
def takeOffset : List Char → Option (Int × List Char)
  | 'Z' :: rest | 'z' :: rest => some (0, rest)
  | sign :: cs => do
    let negative ←
      if sign = '+' then some false
      else if sign = '-' || sign = '−' then some true else none
    let (hours, cs) ← takeDigits 2 cs
    let cs ← takeChar ':' cs
    let (minutes, cs) ← takeDigits 2 cs
    if 23 < hours || 59 < minutes then none
    let seconds : Int := hours * 3600 + minutes * 60
    some (if negative then -seconds else seconds, cs)
  | [] => none

def read? (s : String) : Option Instant := do
  let (year, cs) ← takeDigits 4 s.toList
  let cs ← takeChar '-' cs
  let (month, cs) ← takeDigits 2 cs
  let cs ← takeChar '-' cs
  let (day, cs) ← takeDigits 2 cs
  let cs ← takeChar 'T' cs <|> takeChar 't' cs <|> takeChar ' ' cs
  let (hour, cs) ← takeDigits 2 cs
  let cs ← takeChar ':' cs
  let (minute, cs) ← takeDigits 2 cs
  let cs ← takeChar ':' cs
  let (second, cs) ← takeDigits 2 cs
  let (fraction, cs) ← takeFraction cs
  let (offset, cs) ← takeOffset cs
  if !cs.isEmpty then none
  if month < 1 || 12 < month || day < 1 || daysInMonth year month < day then none
  if 23 < hour || 59 < minute || 60 < second then none
  let seconds := daysTo year month day * 86400 + hour * 3600 + minute * 60 + second - offset
  some ⟨seconds * 1000000000 + fraction⟩

/-- Whole microseconds from the start of the year 2000, toward it. -/
def microseconds (t : Instant) : Int := t.nanoseconds.tdiv 1000

def ofMicroseconds (n : Int) : Instant := ⟨n * 1000⟩

/-- The year, month and day that lie the given number of days from the start of the year
2000. Four centuries have the same number of days wherever they start. -/
def civil (days : Int) : Int × Nat × Nat :=
  let fromMarch := days + daysTo 2000 1 1 - daysTo 0 3 1
  let era := fromMarch / 146097
  let dayOfEra := (fromMarch % 146097).toNat
  let yearOfEra := (dayOfEra - dayOfEra / 1460 + dayOfEra / 36524 - dayOfEra / 146096) / 365
  let dayOfYear := dayOfEra - (365 * yearOfEra + yearOfEra / 4 - yearOfEra / 100)
  let monthFromMarch := (5 * dayOfYear + 2) / 153
  let day := dayOfYear - (153 * monthFromMarch + 2) / 5 + 1
  let month := if monthFromMarch < 10 then monthFromMarch + 3 else monthFromMarch - 9
  let year := era * 400 + yearOfEra + (if month ≤ 2 then 1 else 0)
  (year, month, day)

/-- The digits of a fraction of a second: none, three, six or nine, as many as it needs. -/
def fractionText (nanoseconds : Nat) : String :=
  if nanoseconds = 0 then ""
  else if nanoseconds % 1000000 = 0 then
    "." ++ String.ofList (Text.decimalFixed 3 (nanoseconds / 1000000))
  else if nanoseconds % 1000 = 0 then
    "." ++ String.ofList (Text.decimalFixed 6 (nanoseconds / 1000))
  else "." ++ String.ofList (Text.decimalFixed 9 nanoseconds)

/-- A year of at least four digits; one beyond them has its sign. -/
def yearText (year : Int) : String :=
  if 0 ≤ year && year ≤ 9999 then String.ofList (Text.decimalFixed 4 year.toNat)
  else
    let digits := toString year.natAbs
    let padded := String.ofList (List.replicate (4 - digits.length) '0') ++ digits
    (if year < 0 then "-" else "+") ++ padded

def text (t : Instant) : String :=
  let seconds := t.nanoseconds / 1000000000
  let (year, month, day) := civil (seconds / 86400)
  let ofDay := (seconds % 86400).toNat
  let two (n : Nat) : String := String.ofList (Text.decimalFixed 2 n)
  yearText year ++ "-" ++ two month ++ "-" ++ two day ++ "T" ++ two (ofDay / 3600) ++ ":" ++
    two (ofDay / 60 % 60) ++ ":" ++ two (ofDay % 60) ++
    fractionText (t.nanoseconds % 1000000000).toNat ++ "+00:00"

end Instant

end Grove
