import Grove.Decimal.Power
import Grove.Text

/-!
# Unique identifiers

A unique identifier is a number of 128 bits. It is written as 32 hexadecimal digits in
groups of 8, 4, 4, 4 and 12 with hyphens between them. Read are also the digits without
hyphens, and the groups in braces or after `urn:uuid:`.
-/

namespace Grove

structure Uuid where
  value : Nat
deriving DecidableEq, Inhabited

namespace Uuid

/-- The number that hexadecimal digits write, if all of them are digits. -/
def ofDigits? (cs : List Char) : Option Uuid :=
  (cs.foldlM (fun n c => (Text.hexValue? c).map (n * 16 + ·)) 0).map Uuid.mk

def ungroup? (cs : List Char) : Option (List Char) :=
  match Text.splitChars '-' cs with
  | [a, b, c, d, e] =>
    if a.length = 8 && b.length = 4 && c.length = 4 && d.length = 4 && e.length = 12 then
      some (a ++ b ++ c ++ d ++ e)
    else none
  | _ => none

def unwrap (cs : List Char) : List Char :=
  let scheme := "urn:uuid:".toList
  if cs.head? = some '\x7b' && cs.getLast? = some '\x7d' then cs.tail.dropLast
  else if (cs.take scheme.length).map Char.toLower = scheme then cs.drop scheme.length
  else cs

def read? (s : String) : Option Uuid :=
  let cs := s.toList
  if cs.length = 32 && !cs.contains '-' then ofDigits? cs
  else (ungroup? (unwrap cs)).bind ofDigits?

/-- An identifier of version 4: six of the bits are fixed, and the others are the given
ones. -/
def ofRandomBits (n : Nat) : Uuid :=
  let high := n / twoTo 76 % twoTo 48
  let middle := n / twoTo 64 % twoTo 12
  let low := n % twoTo 62
  ⟨high * twoTo 80 + 4 * twoTo 76 + middle * twoTo 64 + 2 * twoTo 62 + low⟩

def bytes (u : Uuid) : List Nat :=
  (List.range 16).reverse.map fun i => u.value / twoTo (8 * i) % 256

def text (u : Uuid) : String :=
  let ds := Text.hexFixed 32 u.value
  let part (start length : Nat) : String := String.ofList ((ds.drop start).take length)
  String.intercalate "-" [part 0 8, part 8 4, part 12 4, part 16 4, part 20 12]

end Uuid

end Grove
