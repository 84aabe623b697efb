import Grove.Json
import Grove.Decimal.Reading

/-!
# Reading JSON

Text is read by an automaton that takes one character at a time and keeps the open
arrays and objects on a stack, so reading needs no recursion and ends with the text. It
yields the text's structure (`Json.Raw`) with everything that a value would lose:
repeated members, numbers as they are written, and strings that no text can hold because
half of a surrogate pair is missing.

`Raw.toJson?` turns the structure into a value. It fails for a number out of range and a
string that is no text. A reader that skips a part never asks for that part's value, so
such a part may hold either.
-/

namespace Grove.Json

structure Numeral where
  negative : Bool
  whole : List Char
  /-- The digits after the point, if there is one. -/
  fraction : Option (List Char)
  /-- The exponent, if there is one. -/
  exponent : Option Int

/-- JSON text as written. A string is `none` if it has an unpaired surrogate. -/
inductive Raw where
  | null
  | bool (b : Bool)
  | number (n : Numeral)
  | string (s : Option String)
  | array (items : List Raw)
  | object (members : List (Option String × Raw))
deriving Inhabited

namespace Numeral

/-- Takes digits as long as the number they write fits sixty-four bits. Returns it, how
many digits it took and how many are left. -/
def significand (n taken : Nat) : List Char → Nat × Nat × Nat
  | [] => (n, taken, 0)
  | c :: cs =>
    let next := n * 10 + (c.toNat - '0'.toNat)
    if next ≤ Text.maxUnsigned64 then significand next (taken + 1) cs
    else (n, taken, cs.length + 1)

/-- The number as a product of a significand of at most sixty-four bits and a power of
ten. Digits of the whole part that do not fit are dropped, and so are the digits of the
fraction from the first that does not fit. -/
def toDouble? (n : Numeral) : Option Double :=
  let (whole, _, dropped) := significand 0 0 n.whole
  let (all, taken, _) := significand whole 0 (n.fraction.getD [])
  let place : Int := dropped - taken + n.exponent.getD 0
  Double.ofScaled? n.negative all place

/-- The number that the text stands for: an integer where it is written as one and fits
sixty-four bits, and minus zero is not an integer. -/
def toNumber? (n : Numeral) : Option Number :=
  let size := Text.digitsValue n.whole
  if n.fraction.isNone && n.exponent.isNone && !n.negative && size ≤ Text.maxUnsigned64 then
    some (.int size)
  else if n.fraction.isNone && n.exponent.isNone && n.negative && size != 0 &&
      size ≤ 0x8000000000000000 then
    some (.int (-(size : Int)))
  else n.toDouble?.map .float

end Numeral

inductive NumberPart where
  | minus | zero | whole | point | fraction | mark | markSign | exponent
deriving DecidableEq

/-- A number being read, with its digits in reverse. -/
structure PartialNumber where
  part : NumberPart
  negative : Bool
  whole : List Char
  fraction : Option (List Char)
  exponentNegative : Bool
  exponent : Option (List Char)

namespace PartialNumber

def complete (p : PartialNumber) : Bool :=
  p.part = .zero || p.part = .whole || p.part = .fraction || p.part = .exponent

def toNumeral (p : PartialNumber) : Numeral where
  negative := p.negative
  whole := p.whole.reverse
  fraction := p.fraction.map List.reverse
  exponent := p.exponent.map fun ds =>
    let n : Int := Text.digitsValue ds.reverse
    if p.exponentNegative then -n else n

inductive Next where
  | more (p : PartialNumber)
  | invalid
  | ended

def addWhole (p : PartialNumber) (part : NumberPart) (c : Char) : Next :=
  .more { p with part, whole := c :: p.whole }

def addFraction (p : PartialNumber) (c : Char) : Next :=
  .more { p with part := .fraction, fraction := some (c :: p.fraction.getD []) }

def addExponent (p : PartialNumber) (c : Char) : Next :=
  .more { p with part := .exponent, exponent := some (c :: p.exponent.getD []) }

/-- A point, an exponent mark or the end, after digits. -/
def afterDigits (p : PartialNumber) (allowPoint : Bool) (c : Char) : Next :=
  if c = '.' && allowPoint then .more { p with part := .point }
  else if c = 'e' || c = 'E' then .more { p with part := .mark }
  else .ended

def next (p : PartialNumber) (c : Char) : Next :=
  match p.part with
  | .minus =>
    if c = '0' then p.addWhole .zero c
    else if c.isDigit then p.addWhole .whole c else .invalid
  | .zero => if c.isDigit then .invalid else p.afterDigits true c
  | .whole => if c.isDigit then p.addWhole .whole c else p.afterDigits true c
  | .point => if c.isDigit then p.addFraction c else .invalid
  | .fraction => if c.isDigit then p.addFraction c else p.afterDigits false c
  | .mark =>
    if c = '-' then .more { p with part := .markSign, exponentNegative := true }
    else if c = '+' then .more { p with part := .markSign }
    else if c.isDigit then p.addExponent c else .invalid
  | .markSign => if c.isDigit then p.addExponent c else .invalid
  | .exponent => if c.isDigit then p.addExponent c else .ended

def start (negative : Bool) (part : NumberPart) (whole : List Char) : PartialNumber :=
  ⟨part, negative, whole, none, false, none⟩

end PartialNumber

inductive StringPart where
  | plain
  | escape
  | hex (left value : Nat)

/-- An array or object that is open. Its items are in reverse, and an object has the name
of the member being read. -/
inductive Frame where
  | array (items : List Raw)
  | object (members : List (Option String × Raw)) (name : Option String)

inductive Mode where
  | value
  | firstItem
  | firstName
  | nextName
  | colon
  | separator
  | word (left : List Char) (value : Raw)
  | number (p : PartialNumber)
  | string (isName : Bool) (part : StringPart) (units : List Nat)
  | finished (value : Raw)

structure Reading where
  mode : Mode
  stack : List Frame
  depth : Nat

namespace Reading

def start : Reading := ⟨.value, [], 0⟩

/-- The text of code points and surrogates, where each surrogate has its partner beside
it. -/
def textOf : List Nat → Option (List Char)
  | [] => some []
  | [u] => if 0xD800 ≤ u && u ≤ 0xDFFF then none else some [Char.ofNat u]
  | u :: v :: rest =>
    if 0xD800 ≤ u && u ≤ 0xDBFF then
      if 0xDC00 ≤ v && v ≤ 0xDFFF then
        (textOf rest).map (Char.ofNat (0x10000 + (u - 0xD800) * 0x400 + (v - 0xDC00)) :: ·)
      else none
    else if 0xDC00 ≤ u && u ≤ 0xDFFF then none
    else (textOf (v :: rest)).map (Char.ofNat u :: ·)

def place (r : Reading) (v : Raw) : Reading :=
  match r.stack with
  | [] => { r with mode := .finished v }
  | .array items :: stack => { r with mode := .separator, stack := .array (v :: items) :: stack }
  | .object members name :: stack =>
    { r with mode := .separator, stack := .object ((name, v) :: members) name :: stack }

/-- Opens an array or object, unless that is deeper than the limit. -/
def push (limit : Option Nat) (r : Reading) (frame : Frame) (mode : Mode) : Option Reading :=
  let depth := r.depth + 1
  if limit.any (· < depth) then none else some ⟨mode, frame :: r.stack, depth⟩

def pop (r : Reading) : Option Reading :=
  match r.stack with
  | [] => none
  | .array items :: stack => some (place ⟨.separator, stack, r.depth - 1⟩ (.array items.reverse))
  | .object members _ :: stack =>
    some (place ⟨.separator, stack, r.depth - 1⟩ (.object members.reverse))

def isBlank (c : Char) : Bool := c = ' ' || c = '\t' || c = '\n' || c = '\r'

def begin (limit : Option Nat) (r : Reading) (c : Char) : Option Reading :=
  if c = '\x7b' then r.push limit (.object [] none) .firstName
  else if c = '[' then r.push limit (.array []) .firstItem
  else if c = '\x22' then some { r with mode := .string false .plain [] }
  else if c = 't' then some { r with mode := .word ['r', 'u', 'e'] (.bool true) }
  else if c = 'f' then some { r with mode := .word ['a', 'l', 's', 'e'] (.bool false) }
  else if c = 'n' then some { r with mode := .word ['u', 'l', 'l'] .null }
  else if c = '-' then some { r with mode := .number (.start true .minus []) }
  else if c = '0' then some { r with mode := .number (.start false .zero ['0']) }
  else if c.isDigit then some { r with mode := .number (.start false .whole [c]) }
  else none

def escaped? (c : Char) : Option Char :=
  if c = '\x22' || c = '\\' || c = '/' then some c
  else if c = 'b' then some '\x08'
  else if c = 'f' then some '\x0c'
  else if c = 'n' then some '\n'
  else if c = 'r' then some '\r'
  else if c = 't' then some '\t'
  else none

def closeString (r : Reading) (isName : Bool) (units : List Nat) : Reading :=
  let s := (textOf units.reverse).map String.ofList
  if isName then
    match r.stack with
    | .object members _ :: stack => { r with mode := .colon, stack := .object members s :: stack }
    | _ => { r with mode := .colon }
  else r.place (.string s)

def inString (r : Reading) (isName : Bool) (part : StringPart) (units : List Nat) (c : Char) :
    Option Reading :=
  match part with
  | .plain =>
    if c = '\x22' then some (r.closeString isName units)
    else if c = '\\' then some { r with mode := .string isName .escape units }
    else if c.toNat < 0x20 then none
    else some { r with mode := .string isName .plain (c.toNat :: units) }
  | .escape =>
    if c = 'u' then some { r with mode := .string isName (.hex 4 0) units }
    else (escaped? c).map fun e => { r with mode := .string isName .plain (e.toNat :: units) }
  | .hex left value => do
    let value := value * 16 + (← Text.hexValue? c)
    if left ≤ 1 then some { r with mode := .string isName .plain (value :: units) }
    else some { r with mode := .string isName (.hex (left - 1) value) units }

/-- One more character anywhere but in a number. With `firstOnly`, whatever follows the
value is passed over. -/
def stepOutside (limit : Option Nat) (firstOnly : Bool) (r : Reading) (c : Char) :
    Option Reading :=
  match r.mode with
  | .value => if isBlank c then some r else r.begin limit c
  | .firstItem => if isBlank c then some r else if c = ']' then r.pop else r.begin limit c
  | .firstName =>
    if isBlank c then some r
    else if c = '\x7d' then r.pop
    else if c = '\x22' then some { r with mode := .string true .plain [] }
    else none
  | .nextName =>
    if isBlank c then some r
    else if c = '\x22' then some { r with mode := .string true .plain [] }
    else none
  | .colon =>
    if isBlank c then some r else if c = ':' then some { r with mode := .value } else none
  | .separator =>
    if isBlank c then some r
    else
      match r.stack with
      | .array _ :: _ =>
        if c = ',' then some { r with mode := .value } else if c = ']' then r.pop else none
      | .object _ _ :: _ =>
        if c = ',' then some { r with mode := .nextName }
        else if c = '\x7d' then r.pop else none
      | [] => none
  | .word left value =>
    match left with
    | [] => none
    | [d] => if c = d then some (r.place value) else none
    | d :: ds => if c = d then some { r with mode := .word ds value } else none
  | .string isName part units => r.inString isName part units c
  | .number _ => none
  | .finished _ => if firstOnly || isBlank c then some r else none

/-- One more character. A number ends at the first character that is no part of it, and
that character is then read on its own. -/
def step (limit : Option Nat) (firstOnly : Bool) (r : Reading) (c : Char) : Option Reading :=
  match r.mode with
  | .number p =>
    match p.next c with
    | .more p => some { r with mode := .number p }
    | .invalid => none
    | .ended => stepOutside limit firstOnly (r.place (.number p.toNumeral)) c
  | _ => stepOutside limit firstOnly r c

def result? (r : Reading) : Option Raw :=
  match r.mode with
  | .finished v => some v
  | .number p =>
    if p.complete && r.stack.isEmpty then some (.number p.toNumeral) else none
  | _ => none

def run (limit : Option Nat) (firstOnly : Bool) (r : Reading) : List Char → Option Raw
  | [] => r.result?
  | c :: cs =>
    match r.step limit firstOnly c with
    | some r => run limit firstOnly r cs
    | none => none

end Reading

namespace Raw

/-- Reads text that holds one value and nothing else but blanks. -/
def read? (limit : Option Nat) (s : String) : Option Raw :=
  Reading.start.run limit false s.toList

/-- Reads the value that text starts with and passes over the rest. -/
def readFirst? (limit : Option Nat) (s : String) : Option Raw :=
  Reading.start.run limit true s.toList

mutual

/-- The value, unless a number in it is out of range or a string in it is no text. The
last of several members with one name counts. -/
def toJson? : Raw → Option Json
  | .null => some .null
  | .bool b => some (.bool b)
  | .number n => n.toNumber?.map .number
  | .string s => s.map .string
  | .array items => (itemsToJson? items).map .array
  | .object members =>
    (membersToJson? members).map fun fields => .object (Record.ofList fields).fields

def itemsToJson? : List Raw → Option (List Json)
  | [] => some []
  | item :: rest => do
    let v ← toJson? item
    let vs ← itemsToJson? rest
    some (v :: vs)

def membersToJson? : List (Option String × Raw) → Option (List (String × Json))
  | [] => some []
  | (name, value) :: rest => do
    let name ← name
    let v ← toJson? value
    let vs ← membersToJson? rest
    some ((name, v) :: vs)

end

end Raw

def depthLimit : Nat := 127

def read? (s : String) : Option Json := (Raw.read? (some depthLimit) s).bind Raw.toJson?

def readFirst? (s : String) : Option Json :=
  (Raw.readFirst? (some depthLimit) s).bind Raw.toJson?

end Grove.Json
