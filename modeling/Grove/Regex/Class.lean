import Grove.Regex.Escape

/-!
# Bracketed classes of patterns

A class holds characters, ranges, escapes, named ASCII classes and other classes, and
may join two such unions by an operation on sets. Operations have one precedence and
associate to the left. The classes and operations that are open are kept on a stack, and
each round of `readClass` takes at least one character.
-/

namespace Grove.Regex

open Unicode

structure ClassPart where
  chars : CharSet
  height : Nat

inductive SetOperation where
  | intersection | difference | symmetricDifference
deriving DecidableEq

/-- A class that is open, with the union around it, or the left side of an operation. -/
inductive ClassFrame where
  | opened (negated : Bool) (outer : List ClassPart)
  | operation (op : SetOperation) (left : ClassPart)

/-- The largest height of several, and one more. -/
def above (heights : List Nat) : Nat := heights.foldl max 0 + 1

/-- The union of parts; one part alone is no union. -/
def ClassPart.union : List ClassPart → ClassPart
  | [] => ⟨.empty, 0⟩
  | [p] => p
  | ps => ⟨CharSet.unions (ps.map (·.chars)), above (ps.map (·.height))⟩

/-- The two sides of an operation put together. -/
def ClassPart.combine (f : Flags) (op : SetOperation) (left right : ClassPart) : ClassPart :=
  let l := f.fold left.chars
  let r := f.fold right.chars
  let s := match op with
    | .intersection => l.inter r
    | .difference => l.diff r
    | .symmetricDifference => l.symmDiff r
  ⟨s, above [left.height, right.height]⟩

/-- Completes the operation on top of the stack, if there is one. -/
def closeOperation (f : Flags) (stack : List ClassFrame) (right : ClassPart) :
    ClassPart × List ClassFrame :=
  match stack with
  | .operation op left :: rest => (left.combine f op right, rest)
  | _ => (right, stack)

def asciiClass? (name : String) : Option CharSet :=
  match name with
  | "alnum" => some ⟨[(0x30, 0x39), (0x41, 0x5A), (0x61, 0x7A)]⟩
  | "alpha" => some ⟨[(0x41, 0x5A), (0x61, 0x7A)]⟩
  | "ascii" => some CharSet.ascii
  | "blank" => some ⟨[(0x09, 0x09), (0x20, 0x20)]⟩
  | "cntrl" => some ⟨[(0x00, 0x1F), (0x7F, 0x7F)]⟩
  | "digit" => some ⟨[(0x30, 0x39)]⟩
  | "graph" => some ⟨[(0x21, 0x7E)]⟩
  | "lower" => some ⟨[(0x61, 0x7A)]⟩
  | "print" => some ⟨[(0x20, 0x7E)]⟩
  | "punct" => some ⟨[(0x21, 0x2F), (0x3A, 0x40), (0x5B, 0x60), (0x7B, 0x7E)]⟩
  | "space" => some ⟨[(0x09, 0x0D), (0x20, 0x20)]⟩
  | "upper" => some ⟨[(0x41, 0x5A)]⟩
  | "word" => some ⟨[(0x30, 0x39), (0x41, 0x5A), (0x5F, 0x5F), (0x61, 0x7A)]⟩
  | "xdigit" => some ⟨[(0x30, 0x39), (0x41, 0x46), (0x61, 0x66)]⟩
  | _ => none

/-- Reads the name of a named class, up to the bracket after its last colon. -/
def className? (negated : Bool) (cs : List Char) : Option (Bool × CharSet × List Char) := do
  let (name, rest) ← Text.cutAt ':' cs
  let ']' :: rest := rest | none
  let s ← asciiClass? (String.ofList name)
  some (negated, s, rest)

/-- Reads a named class, its name between `[:` and `:]`, if the text after a bracket is
one. -/
def namedClass? : List Char → Option (Bool × CharSet × List Char)
  | ':' :: '^' :: cs => className? true cs
  | ':' :: cs => className? false cs
  | _ => none

/-- The start of a class after its bracket: whether it is negated, and the hyphens or the
closing bracket that stand for themselves there. -/
def openClass (f : Flags) (cs : List Char) : Bool × List ClassPart × List Char :=
  let (negated, cs) := match f.skip cs with
    | '^' :: cs => (true, f.skip cs)
    | cs => (false, cs)
  let literal (c : Char) : ClassPart := ⟨CharSet.single c.toNat, 0⟩
  hyphens negated literal cs.length cs
where
  /-- Takes leading hyphens, and a closing bracket if there are none. -/
  hyphens (negated : Bool) (literal : Char → ClassPart) (fuel : Nat) (cs : List Char) :
      Bool × List ClassPart × List Char :=
    match cs with
    | ']' :: cs => (negated, [literal ']'], f.skip cs)
    | cs => (negated, more literal fuel cs)
  /-- Takes leading hyphens. -/
  more (literal : Char → ClassPart) : Nat → List Char → List ClassPart × List Char
    | fuel + 1, '-' :: cs =>
      let (parts, rest) := more literal fuel (f.skip cs)
      (literal '-' :: parts, rest)
    | _, cs => ([], cs)

def classLiteral (f : Flags) : Escape → Except RegexError Char
  | .literal c byte =>
    if f.unicode || c.toNat < 0x80 then .ok c
    else .error (if byte then .notText else .unicodeRequired)
  | _ => .error .classRangeEnd

/-- A character of a class or what an escape in it stands for. -/
def classItem (f : Flags) : List Char → Except RegexError (Escape × List Char)
  | [] => .error .classUnclosed
  | '\\' :: cs => escape f cs
  | c :: cs => .ok (.literal c false, cs)

def classRange (f : Flags) (cs : List Char) : Except RegexError (ClassPart × List Char) := do
  let (first, rest) ← classItem f cs
  let alone : Except RegexError (ClassPart × List Char) := do
    match first with
    | .look _ => throw .classEscape
    | .chars s => return (⟨s, 0⟩, f.skip rest)
    | .literal .. => return (⟨CharSet.single (← classLiteral f first).toNat, 0⟩, f.skip rest)
  match f.skip rest with
  | '-' :: after =>
    let next := (f.skip after).head?
    if next = some ']' || next = some '-' then alone
    else
      let (last, rest) ← classItem f (f.skip after)
      let a ← classLiteral f first
      let b ← classLiteral f last
      if b.toNat < a.toNat then throw .classRangeReversed
      return (⟨⟨[(a.toNat, b.toNat)]⟩, 0⟩, rest)
  | _ => alone

def readClass (f : Flags) : Nat → List ClassFrame → List ClassPart → List Char →
    Except RegexError (ClassPart × List Char)
  | 0, _, _, _ => .error .classUnclosed
  | fuel + 1, stack, parts, cs => do
    let push (op : SetOperation) (rest : List Char) :=
      let (left, stack) := closeOperation f stack (ClassPart.union parts)
      readClass f fuel (.operation op left :: stack) [] rest
    match f.skip cs with
    | [] => throw .classUnclosed
    | '[' :: rest =>
      match namedClass? rest with
      | some (negated, s, rest) =>
        let s ← f.negate negated (f.fold s)
        readClass f fuel stack (⟨s, 0⟩ :: parts) rest
      | none =>
        let (negated, inner, rest) := openClass f rest
        readClass f fuel (.opened negated parts :: stack) inner rest
    | ']' :: rest =>
      let (whole, stack) := closeOperation f stack (ClassPart.union parts)
      match stack with
      | .opened negated outer :: stack =>
        let s ← f.negate negated (f.fold whole.chars)
        let part : ClassPart := ⟨s, whole.height + 1⟩
        if stack.isEmpty then return (part, rest)
        else readClass f fuel stack (part :: outer) rest
      | _ => throw .classUnclosed
    | '&' :: '&' :: rest => push .intersection rest
    | '-' :: '-' :: rest => push .difference rest
    | '~' :: '~' :: rest => push .symmetricDifference rest
    | cs =>
      let (part, rest) ← classRange f cs
      readClass f fuel stack (part :: parts) rest

end Grove.Regex
