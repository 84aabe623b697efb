import Grove.Regex
import Grove.Regex.Error
import Grove.Text
import Grove.Unicode.Folding
import Grove.Unicode.Script

/-!
# Flags and escapes of patterns

What a character of a pattern stands for depends on the flags in force: whether case
counts, whether sets are sets of all characters or of ASCII, and whether blanks and
comments between the parts of a pattern are passed over. An escape stands for a
character, a set or a condition on the place.
-/

namespace Grove.Regex

open Unicode

structure Flags where
  /-- Letters match in both cases. -/
  caseless : Bool
  /-- `^` and `$` match at every line. -/
  multiLine : Bool
  /-- The point matches line feeds too. -/
  dotAll : Bool
  /-- Sets are sets of all characters, not only of ASCII. -/
  unicode : Bool
  /-- A carriage return ends a line too. -/
  crlf : Bool
  /-- Blanks and comments in the pattern are passed over. -/
  extended : Bool
deriving DecidableEq, Inhabited

namespace Flags

def default : Flags := ⟨false, false, false, true, false, false⟩

/-- The letters of the flags. Which of two repetitions is preferred has no bearing on
whether there is a match, so `U` changes nothing. -/
def letters : List Char := ['i', 'm', 's', 'U', 'u', 'R', 'x']

def set (f : Flags) (value : Bool) (letter : Char) : Flags :=
  if letter = 'i' then { f with caseless := value }
  else if letter = 'm' then { f with multiLine := value }
  else if letter = 's' then { f with dotAll := value }
  else if letter = 'u' then { f with unicode := value }
  else if letter = 'R' then { f with crlf := value }
  else if letter = 'x' then { f with extended := value }
  else f

/-- Sets the flags before a hyphen and clears those after it. -/
def apply (f : Flags) (items : List Char) : Flags :=
  let on := items.takeWhile (· ≠ '-')
  let off := items.dropWhile (· ≠ '-')
  off.foldl (·.set false) (on.foldl (·.set true) f)

end Flags

def skip (inComment : Bool) : List Char → List Char
  | [] => []
  | c :: cs =>
    if inComment then skip (c != '\n') cs
    else if Text.isBlank c then skip false cs
    else if c = '#' then skip true cs
    else c :: cs

def Flags.skip (f : Flags) (cs : List Char) : List Char :=
  if f.extended then Regex.skip false cs else cs

/-- Letters of ASCII in the set, in both cases. -/
def closeAsciiCase (s : CharSet) : CharSet :=
  let letters := (List.range 26).filter fun i => s.mem (0x41 + i) || s.mem (0x61 + i)
  s.union (CharSet.ofRanges (letters.flatMap fun i => [(0x41 + i, 0x41 + i), (0x61 + i, 0x61 + i)]))

/-- The set with both cases of its letters, if case does not count. -/
def Flags.fold (f : Flags) (s : CharSet) : CharSet :=
  if f.caseless then if f.unicode then s.closeCase else closeAsciiCase s else s

/-- The set or its complement. The complement of an ASCII set would hold pieces of
characters. -/
def Flags.negate (f : Flags) (negated : Bool) (s : CharSet) : Except RegexError CharSet :=
  if negated then if f.unicode then .ok s.complement else .error .notText else .ok s

def Flags.literal (f : Flags) (c : Char) : Regex :=
  let s := CharSet.single c.toNat
  .chars (if f.caseless then f.fold s else s)

def Flags.word (f : Flags) : CharSet :=
  if f.unicode then Property.word
  else ⟨[(0x30, 0x39), (0x41, 0x5A), (0x5F, 0x5F), (0x61, 0x7A)]⟩

/-- The set of a one-letter class such as `\d`. -/
def Flags.shorthand (f : Flags) (letter : Char) : CharSet :=
  if letter = 'd' then if f.unicode then Category.decimalNumber else ⟨[(0x30, 0x39)]⟩
  else if letter = 's' then
    if f.unicode then Property.whiteSpace else ⟨[(0x09, 0x0D), (0x20, 0x20)]⟩
  else f.word

inductive Escape where
  /-- A character; `byte` if two hexadecimal digits write it. -/
  | literal (c : Char) (byte : Bool)
  | chars (s : CharSet)
  | look (l : Look)

def metaChars : List Char :=
  ['\\', '.', '+', '*', '?', '(', ')', '|', '[', ']', '\x7b', '\x7d', '^', '$', '#', '&', '-', '~']

/-- Whether a backslash may stand before a character that means itself. -/
def isEscapable (c : Char) : Bool :=
  metaChars.contains c || (c.toNat < 0x80 && !c.isAlphanum && c != '<' && c != '>')

def charOf? (n : Nat) : Option Char :=
  if n < 0xD800 || (0xDFFF < n && n ≤ CharSet.maxPoint) then some (Char.ofNat n) else none

/-- Reads a given number of hexadecimal digits. -/
def hexDigits (f : Flags) (value : Nat) : Nat → List Char → Except RegexError (Nat × List Char)
  | 0, cs => .ok (value, cs)
  | _ + 1, [] => .error .escapeUnfinished
  | n + 1, c :: cs =>
    match Text.hexValue? c with
    | some d => hexDigits f (value * 16 + d) n (f.skip cs)
    | none => .error .notHexadecimal

/-- The characters up to a closing brace, without what is passed over, and what follows
the brace. -/
def untilBrace (f : Flags) : Nat → List Char → Except RegexError (List Char × List Char)
  | fuel + 1, cs =>
    match f.skip cs with
    | [] => .error .escapeUnfinished
    | c :: cs =>
      if c = '\x7d' then .ok ([], cs)
      else (untilBrace f fuel cs).map fun (body, rest) => (c :: body, rest)
  | 0, _ => .error .escapeUnfinished

/-- A character written by its number; `kind` is the letter after the backslash. -/
def hexEscape (f : Flags) (kind : Char) (cs : List Char) :
    Except RegexError (Escape × List Char) := do
  match f.skip cs with
  | [] => throw .escapeUnfinished
  | '\x7b' :: cs =>
    let (body, rest) ← untilBrace f (cs.length + 1) cs
    if body.isEmpty || !body.all fun c => (Text.hexValue? c).isSome then throw .notHexadecimal
    match charOf? (body.foldl (fun n c => n * 16 + (Text.hexValue? c).getD 0) 0) with
    | some c => return (.literal c false, f.skip rest)
    | none => throw .noCharacter
  | cs =>
    let width := if kind = 'x' then 2 else if kind = 'u' then 4 else 8
    let (value, rest) ← hexDigits f 0 width cs
    match charOf? value with
    | some c => return (.literal c (kind = 'x'), rest)
    | none => throw .noCharacter

/-- A property name with lower-case letters and no blanks, hyphens, underscores or
leading `is`. -/
def propertyName (cs : List Char) : String :=
  let kept := cs.filter fun c => c.toNat < 0x80 && c != ' ' && c != '-' && c != '_'
  let lowered := kept.map Char.toLower
  let isFirst := (cs.take 2).map Char.toLower == ['i', 's']
  let bare := if isFirst then lowered.drop 2 else lowered
  String.ofList (if isFirst && bare == ['c'] then lowered else bare)

/-- The set that a property name alone stands for. Three names are short for a category
first. -/
def namedSet? (name : String) : Option CharSet :=
  let property := if ["cf", "sc", "lc"].contains name then none else Property.named? name
  property <|> Category.named? name <|> Script.named? name

def valuedSet? (property value : String) : Option CharSet :=
  if ["generalcategory", "gc"].contains property then Category.named? value
  else if ["script", "sc"].contains property then Script.named? value
  else none

/-- The two sides of the first place where `separator` stands. -/
def cutAtList (separator : List Char) : List Char → Option (List Char × List Char)
  | [] => none
  | c :: cs =>
    if separator.isPrefixOf (c :: cs) then some ([], (c :: cs).drop separator.length)
    else (cutAtList separator cs).map fun (before, after) => (c :: before, after)

/-- The set that the text between the braces of a property class stands for, and whether
its complement is meant. -/
def propertySet? (body : List Char) : Option CharSet × Bool :=
  match cutAtList ['!', '='] body with
  | some (property, value) => (valuedSet? (propertyName property) (propertyName value), true)
  | none =>
    match cutAtList [':'] body <|> cutAtList ['='] body with
    | some (property, value) => (valuedSet? (propertyName property) (propertyName value), false)
    | none => (namedSet? (propertyName body), false)

/-- A property class such as `\p` with a letter or a name in braces. -/
def propertyEscape (f : Flags) (negated : Bool) (cs : List Char) :
    Except RegexError (Escape × List Char) := do
  let (body, rest) ← match f.skip cs with
    | [] => throw .escapeUnfinished
    | '\x7b' :: cs => untilBrace f (cs.length + 1) cs
    | c :: cs => if c = '\\' then throw .propertyUnknown else pure ([c], f.skip cs)
  if !f.unicode then throw .unicodeRequired
  match propertySet? body with
  | (some s, inverted) =>
    let s ← f.negate (negated != inverted) (f.fold s)
    return (.chars s, rest)
  | (none, _) => throw .propertyUnknown

/-- The conditions that have a name in braces after `\b`. -/
def namedEdge? (f : Flags) (name : String) : Option Look :=
  match name with
  | "start" => some (.wordStart f.word)
  | "end" => some (.wordEnd f.word)
  | "start-half" => some (.noWordBefore f.word)
  | "end-half" => some (.noWordAfter f.word)
  | _ => none

def isEdgeNameChar (c : Char) : Bool := c.isAlpha || c = '-'

def edgeName (f : Flags) : Nat → List Char → List Char × List Char
  | fuel + 1, c :: cs =>
    if isEdgeNameChar c then
      let (name, rest) := edgeName f fuel (f.skip cs)
      (c :: name, rest)
    else ([], c :: cs)
  | _, cs => ([], cs)

/-- What follows `\b`. A brace begins a name only if a letter or hyphen follows it, and
otherwise a count. -/
def wordEdge (f : Flags) (cs : List Char) : Except RegexError (Escape × List Char) :=
  let plain := Escape.look (.wordEdge f.word)
  match cs with
  | '\x7b' :: rest =>
    match f.skip rest with
    | [] => .error .wordEdgeUnknown
    | c :: inner =>
      if isEdgeNameChar c then
        match edgeName f (inner.length + 1) (c :: inner) with
        | (name, '\x7d' :: rest) =>
          match namedEdge? f (String.ofList name) with
          | some l => .ok (.look l, rest)
          | none => .error .wordEdgeUnknown
        | _ => .error .wordEdgeUnknown
      else .ok (plain, cs)
  | _ => .ok (plain, cs)

/-- The control characters that a letter writes. -/
def controlOf? (c : Char) : Option Char :=
  if c = 'a' then some '\x07'
  else if c = 'f' then some '\x0c'
  else if c = 't' then some '\t'
  else if c = 'n' then some '\n'
  else if c = 'r' then some '\r'
  else if c = 'v' then some '\x0b'
  else none

def escape (f : Flags) : List Char → Except RegexError (Escape × List Char)
  | [] => .error .escapeUnfinished
  | c :: cs =>
    if c.isDigit then .error .backReference
    else if c = 'x' || c = 'u' || c = 'U' then hexEscape f c cs
    else if c = 'p' || c = 'P' then propertyEscape f (c = 'P') cs
    else if c = 'd' || c = 's' || c = 'w' then .ok (.chars (f.shorthand c), cs)
    else if c = 'D' || c = 'S' || c = 'W' then
      (f.negate true (f.shorthand c.toLower)).map fun s => (.chars s, cs)
    else if isEscapable c then .ok (.literal c false, cs)
    else if c = 'A' then .ok (.look .textStart, cs)
    else if c = 'z' then .ok (.look .textEnd, cs)
    else if c = 'b' then wordEdge f cs
    else if c = 'B' then .ok (.look (.noWordEdge f.word), cs)
    else if c = '<' then .ok (.look (.wordStart f.word), cs)
    else if c = '>' then .ok (.look (.wordEnd f.word), cs)
    else
      match controlOf? c with
      | some control => .ok (.literal control false, cs)
      | none => .error .escapeUnknown

end Grove.Regex
