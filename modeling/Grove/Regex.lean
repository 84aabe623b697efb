import Grove.Unicode.Property

/-!
# Regular expressions

An expression relates places in a text: from where a match starts to where it may end.
A place is a `Cursor`, what comes before it (nearest first) and what comes after, so a
condition on a place such as the start of a line or the edge of a word is a test on its
two sides.

Matching carries a set of places through the expression (`Regex.advance`). Sets are
lists without repetition, and two places in one text are the same when as much follows
them. A star adds places until none is new; a text has one place more than it has
characters, and that bounds the rounds.
-/

namespace Grove

open Unicode

/-- A condition on a place. Those about words carry the set of word characters. -/
inductive Look where
  | textStart
  | textEnd
  | lineStart
  | lineEnd
  /-- Line starts where a carriage return and a line feed end lines, alone or together. -/
  | lineStartAny
  | lineEndAny
  | wordEdge (word : CharSet)
  | noWordEdge (word : CharSet)
  | wordStart (word : CharSet)
  | wordEnd (word : CharSet)
  | noWordBefore (word : CharSet)
  | noWordAfter (word : CharSet)
deriving DecidableEq, Inhabited

inductive Regex where
  | empty
  | chars (set : CharSet)
  | look (l : Look)
  | cat (first second : Regex)
  | alt (first second : Regex)
  | repeated (least : Nat) (most : Option Nat) (body : Regex)
deriving Inhabited

structure Cursor where
  /-- What comes before, the nearest character first. -/
  before : List Char
  after : List Char
deriving DecidableEq, Inhabited

namespace Cursor

def step? (set : CharSet) (c : Cursor) : Option Cursor :=
  match c.after with
  | [] => none
  | a :: rest => if set.mem a.toNat then some ⟨a :: c.before, rest⟩ else none

def next (set : CharSet) (c : Cursor) : Bool := c.after.head?.any fun a => set.mem a.toNat

def previous (set : CharSet) (c : Cursor) : Bool := c.before.head?.any fun a => set.mem a.toNat

def satisfies (c : Cursor) : Look → Bool
  | .textStart => c.before.isEmpty
  | .textEnd => c.after.isEmpty
  | .lineStart => c.before.isEmpty || c.before.head? == some '\n'
  | .lineEnd => c.after.isEmpty || c.after.head? == some '\n'
  | .lineStartAny =>
    c.before.isEmpty || c.before.head? == some '\n' ||
      (c.before.head? == some '\r' && c.after.head? != some '\n')
  | .lineEndAny =>
    c.after.isEmpty || c.after.head? == some '\r' ||
      (c.after.head? == some '\n' && c.before.head? != some '\r')
  | .wordEdge word => c.previous word != c.next word
  | .noWordEdge word => c.previous word == c.next word
  | .wordStart word => !c.previous word && c.next word
  | .wordEnd word => c.previous word && !c.next word
  | .noWordBefore word => !c.previous word
  | .noWordAfter word => !c.next word

/-- The place and every later one, the last one first. -/
def onward (before : List Char) : List Char → List Cursor
  | [] => [⟨before, []⟩]
  | a :: rest => onward (a :: before) rest ++ [⟨before, a :: rest⟩]

/-- Two ascending lists of places of one text as one list. Places ascend by how much
follows them. The first argument bounds the steps. -/
def merge : Nat → List Cursor → List Cursor → List Cursor
  | fuel + 1, c :: cs, d :: ds =>
    if c.after.length < d.after.length then c :: merge fuel cs (d :: ds)
    else if d.after.length < c.after.length then d :: merge fuel (c :: cs) ds
    else c :: merge fuel cs ds
  | _, [], ds => ds
  | _, cs, _ => cs

def union (cs ds : List Cursor) : List Cursor := merge (cs.length + ds.length) cs ds

end Cursor

namespace Regex

/-- Applies `f` to a set of places `n` times, or until it changes nothing. -/
def iterate (f : List Cursor → List Cursor) : Nat → List Cursor → List Cursor
  | 0, cs => cs
  | n + 1, cs =>
    let next := f cs
    if next = cs then cs else iterate f n next

/-- Where the expression may end when it starts at one of the given places. -/
def advance : Regex → List Cursor → List Cursor
  | .empty, cs => cs
  | .chars set, cs => cs.filterMap (·.step? set)
  | .look l, cs => cs.filter (·.satisfies l)
  | .cat first second, cs => second.advance (first.advance cs)
  | .alt first second, cs => Cursor.union (first.advance cs) (second.advance cs)
  | .repeated least most body, cs =>
    let start := iterate body.advance least cs
    let longest := (start.map fun c => c.after.length).foldl max 0
    let more := match most with
      | none => longest + 1
      | some most => min (most - least) (longest + 1)
    iterate (fun ds => Cursor.union ds (body.advance ds)) more start

def isMatch (r : Regex) (text : String) : Bool :=
  !(r.advance (Cursor.onward [] text.toList)).isEmpty

def sequence : List Regex → Regex
  | [] => .empty
  | [r] => r
  | r :: rs => .cat r (sequence rs)

def oneOf : List Regex → Regex
  | [] => .empty
  | [r] => r
  | r :: rs => .alt r (oneOf rs)

end Regex

end Grove
