import Grove.Text
import Grove.Unicode.Property

/-!
# Text quoted for a reader

Messages show a piece of text between double quotes, so that its ends and its invisible
characters can be seen. A character without a visible form of its own, or one that would
attach to the quote or letter before it, is shown by its number.
-/

namespace Grove.Text

def hexDigits (n : Nat) : List Char := Nat.toDigits 16 n

def quotedChar (c : Char) : List Char :=
  if c = '\x22' then ['\\', '\x22']
  else if c = '\\' then ['\\', '\\']
  else if c = '\n' then ['\\', 'n']
  else if c = '\r' then ['\\', 'r']
  else if c = '\t' then ['\\', 't']
  else if c = '\x00' then ['\\', '0']
  else if Unicode.Property.graphemeExtend.mem c.toNat ||
      !Unicode.Property.printable.mem c.toNat then
    '\\' :: 'u' :: '\x7b' :: hexDigits c.toNat ++ ['\x7d']
  else [c]

/-- The text between quotes, with every character visible. -/
def quoted (s : String) : String :=
  "\"" ++ String.ofList (s.toList.flatMap quotedChar) ++ "\""

end Grove.Text
