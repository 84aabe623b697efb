import Grove.Http.Message
import Grove.Selection
import Grove.Text.Percent

/-!
# Routes

A route is a path whose segments are literal text, and may end in a parameter that takes
the rest of the segment. Paths are compared as they stand in the request; only what the
parameters take is decoded. When several routes fit a path, the one that has more literal
text at the first difference wins.
-/

namespace Grove.Http

structure RouteSegment where
  literal : String
  param : Option String := none
deriving DecidableEq, Inhabited

abbrev Route := List RouteSegment

structure Target where
  path : String
  query : String
deriving DecidableEq, Inhabited

namespace Target

/-- What follows the host of an address that names one. -/
def afterHost (cs : List Char) : List Char :=
  let scheme := cs.takeWhile (· ≠ ':')
  match cs.drop scheme.length with
  | ':' :: '/' :: '/' :: rest =>
    if scheme.contains '/' || scheme.contains '?' then cs
    else rest.dropWhile fun c => c ≠ '/' && c ≠ '?'
  | _ => cs

/-- Reads an address. A fragment is no part of it, and a host without a path means the
root. -/
def read (s : String) : Target :=
  let cs := afterHost (s.toList.takeWhile (· ≠ '#'))
  let (path, query) := (Text.cutAt '?' cs).getD (cs, [])
  ⟨if path.isEmpty then "/" else String.ofList path, String.ofList query⟩

/-- The parameters of the query string; the last of several with one name counts. -/
def params (t : Target) : Params := (Percent.formPairs t.query).reverse

end Target

namespace RouteSegment

/-- Reads a segment; a colon starts the name of a parameter. -/
def read (s : String) : RouteSegment :=
  match Text.cutAt ':' s.toList with
  | some (literal, name) => ⟨String.ofList literal, some (String.ofList name)⟩
  | none => ⟨s, none⟩

/-- What the segment takes from a segment of a path: nothing if it does not fit, and
otherwise what its parameter takes, if it has one. The last segment of a path gives a
parameter at least one character. -/
def take? (pattern : RouteSegment) (segment : String) (isLast : Bool) :
    Option (Option (String × String)) :=
  match pattern.param with
  | none => if segment = pattern.literal then some none else none
  | some name =>
    let rest := segment.toList.drop pattern.literal.length
    if pattern.literal.toList.isPrefixOf segment.toList && !(isLast && rest.isEmpty) then
      some (some (name, String.ofList rest))
    else none

def weight (pattern : RouteSegment) : Nat :=
  2 * pattern.literal.length + if pattern.param.isNone then 1 else 0

end RouteSegment

namespace Route

/-- Reads a route; parameters are written with a colon. -/
def read (path : String) : Route := (Text.split '/' path).map RouteSegment.read

/-- What the parameters of the route take from the segments of a path, as it stands there. -/
def takes? : Route → List String → Option (List (String × String))
  | [], [] => some []
  | pattern :: route, segment :: segments => do
    let taken ← pattern.take? segment segments.isEmpty
    let rest ← takes? route segments
    some (taken.toList ++ rest)
  | _, _ => none

/-- Whether a route comes before another that fits the same path. -/
def precedes : Route → Route → Bool
  | a :: as, b :: bs => if a.weight = b.weight then precedes as bs else b.weight < a.weight
  | _, _ => false

end Route

/-- The parameters of a path, decoded; or the name of the first one that is no text. -/
def decodeParams (raw : List (String × String)) : Except String Params :=
  let decode (p : String × String) : Except String (String × String) :=
    match Percent.decode? p.2 with
    | some value => .ok (p.1, value)
    | none => .error p.1
  (raw.mapM decode).map List.reverse

/-- The route that a path takes among several, with what it leads to and what its
parameters take. -/
def findRoute {α : Type} (routes : List (Route × α)) (path : String) :
    Option (α × List (String × String)) :=
  let segments := Text.split '/' path
  let fitting := routes.filterMap fun (r : Route × α) =>
    (r.1.takes? segments).map fun raw => (r.1, r.2, raw)
  let better (a b : Route × α × List (String × String)) : Bool := b.1.precedes a.1
  match fitting with
  | [] => none
  | first :: rest => some (rest.foldl (fun best r => if better best r then r else best) first).2

end Grove.Http
