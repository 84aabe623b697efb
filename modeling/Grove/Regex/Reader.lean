import Grove.Regex.Class

/-!
# Reading patterns

A pattern is read from left to right. What has been read of each open group waits on a
stack (`Level`), so reading is a loop over the characters, and a character that means
itself does no more than join the sequence being read. Flags that a group sets end with
the group.

Expressions carry their height, the number of nested parts, because patterns may nest
only so deep. The size of an expression is what its compiled form takes, where a count
multiplies what it repeats and some states come before and behind.
-/

namespace Grove.Regex

open Unicode

/-- An expression and how deep its parts nest. A change of flags is an empty expression
that cannot be repeated. -/
structure Part where
  regex : Regex
  height : Nat
  repeatable : Bool

/-- A group that is open: what was read of it before the group inside it. -/
structure Level where
  flags : Flags
  parts : List Part
  branches : List Part

/-- What has been read. Parts and branches are in reverse. -/
structure Reading where
  flags : Flags
  names : List (List Char)
  parts : List Part
  branches : List Part
  outer : List Level

namespace Reading

def start : Reading := ⟨Flags.default, [], [], [], []⟩

def push (r : Reading) (regex : Regex) (height : Nat) : Reading :=
  { r with parts := ⟨regex, height, true⟩ :: r.parts }

/-- The sequence that was read last, as one part. -/
def sequencePart (parts : List Part) : Part :=
  match parts with
  | [] => ⟨.empty, 0, true⟩
  | [p] => p
  | ps => ⟨Regex.sequence (ps.reverse.map (·.regex)), above (ps.map (·.height)), true⟩

/-- Everything read of the innermost group, as one part. -/
def whole (r : Reading) : Part :=
  match r.branches with
  | [] => sequencePart r.parts
  | bs =>
    let ps := sequencePart r.parts :: bs
    ⟨Regex.oneOf (ps.reverse.map (·.regex)), above (ps.map (·.height)), true⟩

def openWith (r : Reading) (inner : Flags) (names : List (List Char)) : Reading :=
  ⟨inner, names, [], [], ⟨r.flags, r.parts, r.branches⟩ :: r.outer⟩

def close (r : Reading) : Except RegexError Reading :=
  match r.outer with
  | [] => .error .groupUnopened
  | level :: outer =>
    let p := r.whole
    let group : Part := ⟨p.regex, p.height + 1, true⟩
    .ok ⟨level.flags, r.names, group :: level.parts, level.branches, outer⟩

def repeatLast (r : Reading) (least : Nat) (most : Option Nat) : Except RegexError Reading :=
  match r.parts with
  | p :: parts =>
    if p.repeatable then
      .ok { r with parts := ⟨.repeated least most p.regex, p.height + 1, true⟩ :: parts }
    else .error .nothingToRepeat
  | [] => .error .nothingToRepeat

end Reading

/-- The flags up to a colon or closing parenthesis, which one it was, and what follows.
`seen` holds the flags read, in reverse. -/
def flagItems (seen : List Char) : List Char → Except RegexError (List Char × Char × List Char)
  | [] => .error .flagsUnfinished
  | c :: cs =>
    if c = ':' || c = ')' then
      if seen.head? = some '-' then .error .flagsUnfinished else .ok (seen.reverse, c, cs)
    else if c = '-' || Flags.letters.contains c then
      if seen.contains c then .error .flagRepeated else flagItems (c :: seen) cs
    else .error .flagUnknown

def isNameChar (first : Bool) (c : Char) : Bool :=
  if first then c = '_' || Property.alphabetic.mem c.toNat
  else
    c = '_' || c = '.' || c = '[' || c = ']' || Property.alphabetic.mem c.toNat ||
      Category.number.mem c.toNat

def groupName (names : List (List Char)) (cs : List Char) :
    Except RegexError (List Char × List Char) :=
  match Text.cutAt '>' cs with
  | none => .error .groupNameInvalid
  | some (name, rest) =>
    match name with
    | [] => .error .groupNameInvalid
    | c :: more =>
      if !isNameChar true c || !more.all (isNameChar false) then .error .groupNameInvalid
      else if names.contains name then .error .groupNameRepeated
      else .ok (name, rest)

/-- Reads what follows an opening parenthesis: the start of a group, or flags for the rest
of the group around it. -/
def openGroup (r : Reading) (cs : List Char) : Except RegexError (Reading × List Char) := do
  match r.flags.skip cs with
  | '?' :: '=' :: _ | '?' :: '!' :: _ | '?' :: '<' :: '=' :: _ | '?' :: '<' :: '!' :: _ =>
    throw .lookAround
  | '?' :: 'P' :: '<' :: cs | '?' :: '<' :: cs =>
    let (name, rest) ← groupName r.names cs
    return (r.openWith r.flags (name :: r.names), rest)
  | '?' :: cs =>
    let (items, ending, rest) ← flagItems [] cs
    let flags := r.flags.apply items
    if ending = ')' then
      if items.isEmpty then throw .nothingToRepeat
      return ({ r with flags, parts := ⟨.empty, 0, false⟩ :: r.parts }, rest)
    else return (r.openWith flags r.names, rest)
  | cs => return (r.openWith r.flags r.names, cs)

/-- Reads a number of a count, with blanks around it. `none` if there are no digits. -/
def countNumber (f : Flags) (cs : List Char) : Except RegexError (Option Nat × List Char) :=
  let (ds, rest) := digits f (cs.length + 1) (cs.dropWhile Text.isBlank)
  let rest := blanks f (rest.length + 1) rest
  if ds.isEmpty then .ok (none, rest)
  else if Text.maxUnsigned32 < Text.digitsValue ds then .error .countTooLarge
  else .ok (some (Text.digitsValue ds), rest)
where
  /-- Digits, with what the flags pass over between them. -/
  digits (f : Flags) : Nat → List Char → List Char × List Char
    | fuel + 1, c :: cs =>
      if c.isDigit then
        let (ds, rest) := digits f fuel (f.skip cs)
        (c :: ds, rest)
      else ([], c :: cs)
    | _, cs => ([], cs)
  /-- Drops blanks and what the flags pass over after them. -/
  blanks (f : Flags) : Nat → List Char → List Char
    | fuel + 1, c :: cs => if Text.isBlank c then blanks f fuel (f.skip cs) else c :: cs
    | _, cs => cs

/-- Drops the mark that asks for as few repetitions as possible. -/
def skipMark : List Char → List Char
  | '?' :: cs => cs
  | cs => cs

def counted (r : Reading) (cs : List Char) : Except RegexError (Reading × List Char) := do
  let f := r.flags
  let finish (least : Nat) (most : Option Nat) (cs : List Char) :
      Except RegexError (Reading × List Char) := do
    match cs with
    | '\x7d' :: rest =>
      if most.any (· < least) then throw .countReversed
      return (← r.repeatLast least most, skipMark (f.skip rest))
    | _ => throw .countUnclosed
  let (least, cs) ← countNumber f (f.skip cs)
  match cs with
  | ',' :: cs =>
    let some least := least | throw .countMissing
    match f.skip cs with
    | '\x7d' :: rest => finish least none ('\x7d' :: rest)
    | cs =>
      let (most, cs) ← countNumber f cs
      let some most := most | throw .countMissing
      finish least (some most) cs
  | cs =>
    let some least := least | throw .countMissing
    finish least (some least) cs

def Flags.ofEscape (f : Flags) : Escape → Except RegexError Regex
  | .literal c byte =>
    if byte && !f.unicode && 0x7F < c.toNat then .error .notText else .ok (f.literal c)
  | .chars s => .ok (.chars s)
  | .look l => .ok (.look l)

def Flags.dot (f : Flags) : Except RegexError Regex :=
  if !f.unicode then .error .notText
  else if f.dotAll then .ok (.chars CharSet.all)
  else if f.crlf then .ok (.chars ⟨[(0, 0x09), (0x0B, 0x0C), (0x0E, CharSet.maxPoint)]⟩)
  else .ok (.chars ⟨[(0, 0x09), (0x0B, CharSet.maxPoint)]⟩)

def Flags.lineStart (f : Flags) : Look :=
  if f.multiLine then if f.crlf then .lineStartAny else .lineStart else .textStart

def Flags.lineEnd (f : Flags) : Look :=
  if f.multiLine then if f.crlf then .lineEndAny else .lineEnd else .textEnd

def readPart (r : Reading) (c : Char) (cs : List Char) : Except RegexError (Reading × List Char) :=
  if c = '(' then openGroup r cs
  else if c = ')' then r.close.map (·, cs)
  else if c = '|' then
    .ok ({ r with parts := [], branches := Reading.sequencePart r.parts :: r.branches }, cs)
  else if c = '[' then
    let (negated, inner, rest) := openClass r.flags cs
    (readClass r.flags (rest.length + 1) [.opened negated []] inner rest).map fun (part, rest) =>
      (r.push (.chars part.chars) part.height, rest)
  else if c = '?' then (r.repeatLast 0 (some 1)).map (·, skipMark cs)
  else if c = '*' then (r.repeatLast 0 none).map (·, skipMark cs)
  else if c = '+' then (r.repeatLast 1 none).map (·, skipMark cs)
  else if c = '\x7b' then counted r cs
  else if c = '\\' then do
    let (e, rest) ← escape r.flags cs
    .ok (r.push (← r.flags.ofEscape e) 0, rest)
  else if c = '.' then r.flags.dot.map fun regex => (r.push regex 0, cs)
  else if c = '^' then .ok (r.push (.look r.flags.lineStart) 0, cs)
  else if c = '$' then .ok (r.push (.look r.flags.lineEnd) 0, cs)
  else .ok (r.push (r.flags.literal c) 0, cs)

/-- Reads parts to the end of the pattern. Each takes at least one character, and the
first argument bounds their number. -/
def readParts : Nat → Reading → List Char → Except RegexError Reading
  | 0, r, _ => .ok r
  | fuel + 1, r, cs =>
    match r.flags.skip cs with
    | [] => .ok r
    | c :: cs => do
      let (r, rest) ← readPart r c cs
      readParts fuel r rest

def nestLimit : Nat := 250

/-- What a state of the compiled form takes, in bytes. -/
def stateSize : Nat := 32

/-- What the states of an expression take, in bytes. A set beyond ASCII becomes a machine
over the bytes of its characters, with about two states to a range. -/
def size : Regex → Nat
  | .empty => stateSize
  | .chars s =>
    match s.ranges with
    | [] => stateSize
    | [(a, b)] =>
      if b < 0x80 then stateSize
      else if a = b then
        if a < 0x800 then 2 * stateSize
        else if a < 0x10000 then 3 * stateSize
        else 4 * stateSize
      else 8 * stateSize
    | rs => if rs.all (·.2 < 0x80) then stateSize + 8 * rs.length else 2 * stateSize * rs.length
  | .look _ => stateSize
  | .cat first second => first.size + second.size
  | .alt first second => first.size + second.size + 2 * stateSize + 8
  | .repeated least most body =>
    let optional := body.size + stateSize + 8
    match most with
    | some most => least * body.size + (most - least) * optional + stateSize
    | none => (max least 1) * body.size + 2 * stateSize

/-- No match of the expression takes a character. -/
def takesNothing : Regex → Bool
  | .empty | .look _ => true
  | .chars _ => false
  | .cat first second | .alt first second => first.takesNothing && second.takesNothing
  | .repeated _ most body => most == some 0 || body.takesNothing

/-- Whether the expression is seen to be bound to the start of the text, or else to its end:
a condition for that stands before all that takes characters, or behind it. -/
def bound (atStart : Bool) : Regex → Bool
  | .empty | .chars _ => false
  | .look l => l == if atStart then .textStart else .textEnd
  | .cat first second =>
    if atStart then first.bound atStart || first.takesNothing && second.bound atStart
    else second.bound atStart || second.takesNothing && first.bound atStart
  | .alt first second => first.bound atStart && second.bound atStart
  | .repeated least _ body => 0 < least && body.bound atStart

/-- What comes before an expression: a state that does nothing if it is bound, and else a
loop of three states over any bytes, with two transitions of four bytes and one of eight. -/
def leadSize (bound : Bool) : Nat := if bound then stateSize else 3 * stateSize + 16

/-- What surrounds the states of an expression. Forward it is read from the start of the
match to the end, with a state for each and one that accepts; backward there is only the
last of these. The two are compiled apart, and the larger counts. -/
def frameSize (atStart atEnd : Bool) : Nat :=
  max (3 * stateSize + leadSize atStart) (stateSize + leadSize atEnd)

/-- What the compiled form takes, in bytes. Groups that capture are not counted. -/
def compiledSize (r : Regex) : Nat := r.size + frameSize (r.bound true) (r.bound false)

def parse (pattern : String) : Except RegexError Regex := do
  let cs := pattern.toList
  let r ← readParts cs.length Reading.start cs
  if !r.outer.isEmpty then throw .groupUnclosed
  let p := r.whole
  if nestLimit < p.height then throw .tooNested
  if RegexError.sizeLimit < p.regex.compiledSize then throw .tooLarge
  return p.regex

end Grove.Regex
