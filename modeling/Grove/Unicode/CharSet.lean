/-!
# Sets of characters

A set of characters is a list of ranges of code points, in order and apart from one
another. Keeping the list in that form is what makes the complement a single walk along
the gaps, and with the complement and the union every other operation follows.

Tables of the Unicode character database are written as runs (`CharSet.ofRuns`): each
run is the distance from the end of the run before it, and how many more characters it
has, in base thirty-six. A table of several hundred ranges is then a few lines of text.
-/

namespace Grove.Unicode

/-- A set of characters, as ranges of code points that ascend and do not touch. -/
structure CharSet where
  ranges : List (Nat × Nat)
deriving DecidableEq, Inhabited

namespace CharSet

def maxPoint : Nat := 0x10FFFF

def empty : CharSet := ⟨[]⟩

def all : CharSet := ⟨[(0, maxPoint)]⟩

def ascii : CharSet := ⟨[(0, 0x7F)]⟩

def single (point : Nat) : CharSet := ⟨[(point, point)]⟩

def mem (s : CharSet) (point : Nat) : Bool :=
  s.ranges.any fun r => r.1 ≤ point && point ≤ r.2

/-- Joins each range to the one before it where they touch; `cur` is the range being
grown. The ranges come in order of their first point. -/
def coalesce (cur : Nat × Nat) : List (Nat × Nat) → List (Nat × Nat)
  | [] => [cur]
  | r :: rest =>
    if r.1 ≤ cur.2 + 1 then coalesce (cur.1, max cur.2 r.2) rest
    else cur :: coalesce r rest

/-- The set of all points of the given ranges, in any order. -/
def ofRanges (ranges : List (Nat × Nat)) : CharSet :=
  match ranges.mergeSort (fun a b => a.1 ≤ b.1) with
  | [] => empty
  | r :: rest => ⟨coalesce r rest⟩

def union (s t : CharSet) : CharSet := ofRanges (s.ranges ++ t.ranges)

def unions (sets : List CharSet) : CharSet := ofRanges (sets.flatMap ranges)

/-- The gaps that a list of ranges leaves from `start` on. -/
def gaps (start : Nat) : List (Nat × Nat) → List (Nat × Nat)
  | [] => if start ≤ maxPoint then [(start, maxPoint)] else []
  | r :: rest =>
    if start < r.1 then (start, r.1 - 1) :: gaps (r.2 + 1) rest else gaps (r.2 + 1) rest

def complement (s : CharSet) : CharSet := ⟨gaps 0 s.ranges⟩

def inter (s t : CharSet) : CharSet := (s.complement.union t.complement).complement

def diff (s t : CharSet) : CharSet := s.inter t.complement

def symmDiff (s t : CharSet) : CharSet := (s.diff t).union (t.diff s)

def digit36 (c : Char) : Nat :=
  if c.isDigit then c.toNat - '0'.toNat else c.toNat - 'a'.toNat + 10

def number36 (s : String) : Nat := s.toList.foldl (fun n c => n * 36 + digit36 c) 0

/-- Reads one run; `start` is the first point not yet passed. -/
def readRun (start : Nat) (word : String) : Nat × Nat :=
  match word.splitOn "-" with
  | [gap, more] => (start + number36 gap, start + number36 gap + number36 more)
  | _ => (start + number36 word, start + number36 word)

/-- The set written by the runs of the given lines. -/
def ofRuns (lines : List String) : CharSet :=
  let step := fun (acc : Nat × List (Nat × Nat)) word =>
    let r := readRun acc.1 word
    (r.2 + 1, r :: acc.2)
  ofRanges ((lines.flatMap fun line => line.splitOn " ").foldl step (0, [])).2

end CharSet

end Grove.Unicode
