/-!
# Text

What the rest of the library does to text: trimming, splitting, changing the case of
ASCII letters, and reading whole numbers. A blank is a character of the Unicode property
White_Space. Digits and letters with case are ASCII; the formats that use them admit no
others.
-/

namespace Grove.Text

/-- The blanks: tab to carriage return, the space, and the spaces and line separators
that Unicode adds. -/
def isBlank (c : Char) : Bool :=
  let n := c.toNat
  (9 ≤ n && n ≤ 13) || n == 0x20 || n == 0x85 || n == 0xA0 || n == 0x1680 ||
    (0x2000 ≤ n && n ≤ 0x200A) || n == 0x2028 || n == 0x2029 || n == 0x202F ||
    n == 0x205F || n == 0x3000

/-- The characters without the blanks at both ends. -/
def trimChars (cs : List Char) : List Char :=
  ((cs.dropWhile isBlank).reverse.dropWhile isBlank).reverse

def trim (s : String) : String := String.ofList (trimChars s.toList)

def isAllBlank (s : String) : Bool := s.toList.all isBlank

def lower (s : String) : String := String.ofList (s.toList.map Char.toLower)

def upper (s : String) : String := String.ofList (s.toList.map Char.toUpper)

def equalIgnoringCase (s t : String) : Bool := lower s == lower t

/-- The pieces between separators; always one more than there are separators. -/
def splitChars (sep : Char) : List Char → List (List Char)
  | [] => [[]]
  | c :: cs =>
    if c = sep then [] :: splitChars sep cs
    else
      match splitChars sep cs with
      | [] => [[c]]
      | piece :: pieces => (c :: piece) :: pieces

def split (sep : Char) (s : String) : List String :=
  (splitChars sep s.toList).map String.ofList

/-- The entries of a comma-separated list, trimmed, without the blank ones. -/
def entries (s : String) : List String :=
  ((split ',' s).map trim).filter (· ≠ "")

def has (s : String) (c : Char) : Bool := s.toList.contains c

/-- The text before and after the first separator, if there is one. -/
def cutAt (sep : Char) (cs : List Char) : Option (List Char × List Char) :=
  match cs.dropWhile (· ≠ sep) with
  | [] => none
  | _ :: rest => some (cs.takeWhile (· ≠ sep), rest)

def digitsValue (cs : List Char) : Nat :=
  cs.foldl (fun n c => n * 10 + (c.toNat - '0'.toNat)) 0

def readDigits? (cs : List Char) : Option Nat :=
  if cs.isEmpty || !cs.all Char.isDigit then none else some (digitsValue cs)

/-- Reads a whole number from 0 to `largest`, with an optional plus sign. -/
def readNat? (largest : Nat) (s : String) : Option Nat := do
  let n ← readDigits? (match s.toList with | '+' :: cs => cs | cs => cs)
  if n ≤ largest then some n else none

/-- Reads a 64-bit signed integer, with an optional sign. -/
def readInt64? (s : String) : Option Int := do
  let n ← match s.toList with
    | '-' :: cs => (readDigits? cs).map fun n => -(n : Int)
    | '+' :: cs => (readDigits? cs).map Int.ofNat
    | cs => (readDigits? cs).map Int.ofNat
  if -0x8000000000000000 ≤ n && n < 0x8000000000000000 then some n else none

def maxUnsigned32 : Nat := 0xFFFFFFFF

def maxUnsigned64 : Nat := 0xFFFFFFFFFFFFFFFF

def hexDigit (n : Nat) : Char :=
  if n < 10 then Char.ofNat ('0'.toNat + n) else Char.ofNat ('a'.toNat + (n - 10))

def hexValue? (c : Char) : Option Nat :=
  if c.isDigit then some (c.toNat - '0'.toNat)
  else if 'a' ≤ c && c ≤ 'f' then some (c.toNat - 'a'.toNat + 10)
  else if 'A' ≤ c && c ≤ 'F' then some (c.toNat - 'A'.toNat + 10)
  else none

/-- The last `width` hexadecimal digits of a number, most significant first. -/
def hexFixed : Nat → Nat → List Char
  | 0, _ => []
  | width + 1, n => hexFixed width (n / 16) ++ [hexDigit (n % 16)]

/-- The last `width` decimal digits of a number, most significant first. -/
def decimalFixed : Nat → Nat → List Char
  | 0, _ => []
  | width + 1, n => decimalFixed width (n / 10) ++ [hexDigit (n % 10)]

end Grove.Text
