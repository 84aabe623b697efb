import Grove.Unicode.Category

/-!
# Properties

Character properties that are a category or two and a remainder. The remainders are
tables; the rest is put together from `Category`.
-/

namespace Grove.Unicode.Property

open Category

/-- Alphabetic characters that are neither letters nor letter-like numbers. -/
def otherAlphabetic : CharSet := CharSet.ofRuns [
  "n9 h6-d 1 1-1 1-1 1 20-a 1c-c 1-6 g 2t-6 4-3 2-1 4 z u-f 2u-a 2t-1 3-8 1-2 1-3 4n-b 3-6 6-j",
  "1i-1 2-e 1-1 5-2 a-1 t-2 1m-6 2-1 2-1 a a-1 t-2 1m-4 4-1 2-1 4 u-1 3 b-2 1m-7 1-2 1-1 l-1",
  "m-2 4-2 1m-6 2-1 2-1 9-1 a-1 u 1n-4 3-2 1-2 a 14-4 1l-6 1-2 1-2 8-1 b-1 t-2 1m-6 1-2 1-2 8-1",
  "b-1 f c-3 1m-6 1-2 1-2 a a-1 t-2 23-5 1 1-7 i-1 1p 2-6 i 2r 2-5 1-1 g 4j-i 9-a 1-z 32-b 1",
  "2-3 n-3 4-2 1-2 2-6 3-3 d-b 1 a-3 19w-1 u-1 u-1 u-1 1u-i 58-1 y 3a-b 4-8 66-4 1l-9 2-j 22-1",
  "b-2 1d-4 1c-e 1o-2 u-8 2-1 1l-a 1e-i c0-d 1c1-1f 1rq-v nsk-7 y-1 9u 8 n-4 2g-1 1e-f 1 1l",
  "12-4 s-b 19-3 1c-b 11 1v-d c 8-1 19-2 1e 1-2 2-1 5 18-4 5 6l-7 fn7 1nb-4 1ae-2 1-1 5-3 lw-3",
  "ar-1 9f-2 1h-d 19-1 b-2 19-8 9 1p-2 10-b i-1 1l-2 1c-c e-1 2k-8 2 6 2 4d-9 n-3 1m-6 2-1 2-1",
  "a a-1 5t-c 1-2 2y-h 6l-6 2-6 t-1 2a-e 1 2y-a 2v-d 75-c 6v-5 1-1 2-1 3 1 3y-6 2-5 4 s-9 16-4",
  "1-3 i-a 1a-d bb-7 1-6 2b-l 1-d 3e-5 3 1-1 1-2 1 3 1u-4 1-1 1-3 9o-3 9-1 1 1c-6 3-2 fta 1-1i",
  "7-3 2l-1 f58 6zl-6 1-g 2-6 1-1 1-4 2s 1pz 1k8-p 6-p 6-p"]

/-- Lower-case characters that are not lower-case letters. -/
def otherLowercase : CharSet := CharSet.ofRuns [
  "4q f dx-8 7-1 u-4 2o 1g 2o1 2en-1q d y-10 j5 d g-c 5v-f nk-p 1hu-1 o4e-1 5u 3l-2 3-1 o2-3 9",
  "i6u 2-2 1-15 1-8 16r9-1p"]

/-- Upper-case characters that are not upper-case letters. -/
def otherUppercase : CharSet := CharSet.ofRuns [
  "6lc-f na-p 2ixs-p 6-p 6-p"]

/-- Characters that extend a grapheme without being a nonspacing or enclosing mark. -/
def otherExtending : CharSet := CharSet.ofRuns [
  "1xa o 9y o 2u o 6i i-1 2v o 3b f 2mt ye 36p-1 14z2-1 3vi o 9k c 6p ow 10dw 8-4 h419-2n"]

def alphabetic : CharSet := CharSet.unions [letter, letterNumber, otherAlphabetic]

def lowercase : CharSet := lowercaseLetter.union otherLowercase

def uppercase : CharSet := uppercaseLetter.union otherUppercase

/-- Blanks: the characters of the property White_Space. -/
def whiteSpace : CharSet :=
  CharSet.ofRanges [(0x9, 0xD), (0x20, 0x20), (0x85, 0x85), (0xA0, 0xA0), (0x1680, 0x1680),
    (0x2000, 0x200A), (0x2028, 0x2029), (0x202F, 0x202F), (0x205F, 0x205F), (0x3000, 0x3000)]

/-- The two joiners, which shape the letters beside them. -/
def joinControl : CharSet := CharSet.ofRanges [(0x200C, 0x200D)]

/-- Characters of words: letters and their marks, decimal digits, connectors and joiners. -/
def word : CharSet :=
  CharSet.unions [alphabetic, mark, decimalNumber, connectorPunctuation, joinControl]

/-- Characters that extend the grapheme before them. -/
def graphemeExtend : CharSet := CharSet.unions [nonspacingMark, enclosingMark, otherExtending]

/-- Characters with a visible form, and the space. -/
def printable : CharSet :=
  (CharSet.unions [separator, other]).complement.union (CharSet.single 0x20)

/-- The property called `name`, where letters are lower case and blanks, hyphens and
underscores are gone. -/
def named? (name : String) : Option CharSet :=
  match name with
  | "alpha" | "alphabetic" => some alphabetic
  | "lower" | "lowercase" => some lowercase
  | "upper" | "uppercase" => some uppercase
  | "space" | "wspace" | "whitespace" => some whiteSpace
  | "joinc" | "joincontrol" => some joinControl
  | "grext" | "graphemeextend" => some graphemeExtend
  | "ahex" | "asciihexdigit" =>
    some (CharSet.ofRanges [(0x30, 0x39), (0x41, 0x46), (0x61, 0x66)])
  | "hex" | "hexdigit" =>
    some (CharSet.ofRanges [(0x30, 0x39), (0x41, 0x46), (0x61, 0x66), (0xFF10, 0xFF19),
      (0xFF21, 0xFF26), (0xFF41, 0xFF46)])
  | _ => none

end Grove.Unicode.Property
