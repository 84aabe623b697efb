import Grove.Text

/-!
# Bytes and text

Text is written in bytes as UTF-8. Reading goes over the bytes once and keeps what is
still owed of the character that was begun. Bytes that cannot be part of any character,
and characters that break off, are marked in their place, so a reader can refuse the
whole or put a replacement there.
-/

namespace Grove.Utf8

def encode (cs : List Char) : List Nat :=
  cs.flatMap fun c => (String.utf8EncodeChar c).map (·.toNat)

/-- A character that has been begun: how many bytes it still needs, between which bounds the
next one lies, and the value so far. -/
structure Begun where
  owed : Nat
  least : Nat
  greatest : Nat
  value : Nat
deriving DecidableEq, Inhabited

/-- A character whole, begun, or none at all, by its first byte. -/
def first (b : Nat) : List (Option Char) × Option Begun :=
  if b < 0x80 then ([some (Char.ofNat b)], none)
  else if 0xC2 ≤ b && b ≤ 0xDF then ([], some ⟨1, 0x80, 0xBF, b - 0xC0⟩)
  else if b = 0xE0 then ([], some ⟨2, 0xA0, 0xBF, 0⟩)
  else if b = 0xED then ([], some ⟨2, 0x80, 0x9F, 0xD⟩)
  else if 0xE1 ≤ b && b ≤ 0xEF then ([], some ⟨2, 0x80, 0xBF, b - 0xE0⟩)
  else if b = 0xF0 then ([], some ⟨3, 0x90, 0xBF, 0⟩)
  else if 0xF1 ≤ b && b ≤ 0xF3 then ([], some ⟨3, 0x80, 0xBF, b - 0xF0⟩)
  else if b = 0xF4 then ([], some ⟨3, 0x80, 0x8F, 4⟩)
  else ([none], none)

/-- One more byte: what is complete now, and what is begun. -/
def step : Option Begun → Nat → List (Option Char) × Option Begun
  | none, b => first b
  | some p, b =>
    if p.least ≤ b && b ≤ p.greatest then
      let value := p.value * 64 + (b - 0x80)
      if p.owed ≤ 1 then ([some (Char.ofNat value)], none)
      else ([], some ⟨p.owed - 1, 0x80, 0xBF, value⟩)
    else (none :: (first b).1, (first b).2)

/-- The characters of the bytes. Every longest part that is the start of a character but
no character, and every other byte that begins none, is `none`. -/
def scan : Option Begun → List Nat → List (Option Char)
  | none, [] => []
  | some _, [] => [none]
  | pending, b :: bs => (step pending b).1 ++ scan (step pending b).2 bs

/-- The text of the bytes, if all of them are part of it. -/
def decode? (bytes : List Nat) : Option (List Char) := (scan none bytes).mapM id

/-- The text of the bytes, with U+FFFD for what is no text. -/
def decodeReplacing (bytes : List Nat) : List Char :=
  (scan none bytes).map (·.getD '\uFFFD')

end Grove.Utf8
