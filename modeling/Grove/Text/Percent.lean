import Grove.Text.Utf8

/-!
# Percent signs

In the parts of an address a percent sign and two hexadecimal digits stand for a byte. A
percent sign without them stands for itself. Query strings are forms: names and values
with an equals sign between them and ampersands between the pairs, and a plus sign is a
blank there.
-/

namespace Grove.Percent

/-- The bytes that a part of an address stands for. -/
def bytes : List Char → List Nat
  | [] => []
  | '%' :: a :: b :: rest =>
    match Text.hexValue? a, Text.hexValue? b with
    | some high, some low => (high * 16 + low) :: bytes rest
    | _, _ => Utf8.encode ['%'] ++ bytes (a :: b :: rest)
  | c :: rest => Utf8.encode [c] ++ bytes rest

/-- The text that a part of an address stands for, if it stands for any. -/
def decode? (s : String) : Option String := (Utf8.decode? (bytes s.toList)).map String.ofList

def formText (cs : List Char) : String :=
  String.ofList (Utf8.decodeReplacing (bytes (cs.map fun c => if c = '+' then ' ' else c)))

/-- A pair of a form. Without an equals sign the value is empty. -/
def formPair (cs : List Char) : String × String :=
  match Text.cutAt '=' cs with
  | some (name, value) => (formText name, formText value)
  | none => (formText cs, "")

/-- The pairs of a form; empty ones are passed over. -/
def formPairs (s : String) : List (String × String) :=
  ((Text.splitChars '&' s.toList).filter fun cs => !cs.isEmpty).map formPair

end Grove.Percent
