import Grove.Text

/-!
# Media types

A media type is two tokens with a slash between them and may have parameters after
semicolons. What follows the last plus sign of the second token is its suffix. A body is
taken for JSON if its media type is `application/json` or has the suffix `json`.
-/

namespace Grove.MediaType

def isToken (c : Char) : Bool :=
  c.isAlphanum || "!#$%&'*+-.^_`|~".toList.contains c

def isQuotable (c : Char) : Bool := 0x1F < c.toNat && c.toNat ≠ 0x7F

/-- What follows the first quote that is not the first character, if only characters that
may be quoted stand before it. -/
def afterQuoted : List Char → Option (List Char)
  | [] => none
  | c :: cs =>
    if !isQuotable c then none
    else
      let inside := cs.takeWhile fun c => c ≠ '\x22' && isQuotable c
      match cs.drop inside.length with
      | '\x22' :: rest => some rest
      | _ => none

/-- Takes the value of a parameter and the semicolon after it. A quoted value may have
blanks before the semicolon. -/
def afterValue : List Char → Option (List Char)
  | '\x22' :: cs => do
    match (← afterQuoted cs).dropWhile (· = ' ') with
    | [] => some []
    | ';' :: rest => some rest
    | _ => none
  | cs =>
    let token := cs.takeWhile isToken
    match cs.drop token.length with
    | [] => some []
    | ';' :: rest => if token.isEmpty then none else some rest
    | _ => none

/-- Whether parameters stand there; blanks may stand before each. The first argument
bounds how many there are. -/
def areParameters : Nat → List Char → Bool
  | 0, cs => cs.isEmpty
  | fuel + 1, cs =>
    let cs := cs.dropWhile (· = ' ')
    if cs.isEmpty then true
    else
      let name := cs.takeWhile isToken
      match cs.drop name.length with
      | '=' :: rest =>
        !name.isEmpty && (afterValue rest).any (areParameters fuel)
      | _ => false

/-- The second token of a media type without its suffix, and the suffix. -/
def suffixed (subtype : List Char) : List Char × Option (List Char) :=
  match subtype with
  | [] => ([], none)
  | first :: cs =>
    let suffix := (cs.reverse.takeWhile (· ≠ '+')).reverse
    if suffix.length = cs.length then (subtype, none)
    else (first :: cs.take (cs.length - suffix.length - 1), some suffix)

def isJson (s : String) : Bool :=
  let cs := s.toList
  let type := cs.takeWhile isToken
  match cs.drop type.length with
  | '/' :: rest =>
    let subtype := rest.takeWhile isToken
    let parameters := match rest.drop subtype.length with
      | [] => true
      | ';' :: rest => !subtype.isEmpty && areParameters rest.length rest
      | _ => false
    let (main, suffix) := suffixed (subtype.map Char.toLower)
    parameters && type.map Char.toLower == "application".toList &&
      (main == "json".toList || suffix == some "json".toList)
  | _ => false

end Grove.MediaType
