import Grove.Failure
import Grove.Text.Percent
import Grove.Text.Quoted

/-!
# Addresses of databases

The address of a database names a server and, in its path, a database there. Two readings
of it are needed. One finds the path and puts another database into it, and looks at
nothing else. The other takes the address apart to connect.
-/

namespace Grove.Postgres

def serverDatabase : String := "postgres"

namespace Address

/-- The text up to the end of the first `://`, and what follows. Without one the first part
is empty. -/
def afterScheme? : List Char → Option (List Char × List Char)
  | [] => none
  | ':' :: '/' :: '/' :: rest => some ("://".toList, rest)
  | c :: cs => (afterScheme? cs).map fun parts => (c :: parts.1, parts.2)

/-- The address of the server's own database, and the name of the database that the
address means. -/
def split (url : String) : Except ConfigProblem (String × String) :=
  let cs := url.toList
  let (scheme, rest) := (afterScheme? cs).getD ([], cs)
  match Text.cutAt '/' rest with
  | none => .error (.validation .urlWithoutPath)
  | some (authority, path) =>
    .ok (String.ofList (scheme ++ authority) ++ "/" ++ serverDatabase,
      Text.trim (String.ofList (path.takeWhile (· ≠ '?'))))

end Address

structure Address where
  host : String
  /-- The number that the server listens at, if it is not the usual one. -/
  number : Option Nat
  user : Option String
  password : Option String
  database : Option String
deriving DecidableEq, Inhabited

inductive AddressError where
  | relative
  | emptyHost
  | badHost
  | badBrackets
  | badNumber
  /-- The number among the options is none of sixteen bits. -/
  | badOption (value : String)
  | unknownEncryption (value : String)
deriving DecidableEq, Inhabited

def AddressError.message : AddressError → String
  | .relative => "relative URL without a base"
  | .emptyHost => "empty host"
  | .badHost => "invalid domain character"
  | .badBrackets => "invalid IPv6 address"
  | .badNumber => "invalid port number"
  | .badOption value =>
    if value = "" then "cannot parse integer from empty string"
    else if (Text.readDigits? value.toList).isSome then
      "number too large to fit in target type"
    else "invalid digit found in string"
  | .unknownEncryption value =>
    "error with configuration: unknown value " ++ Text.quoted value ++ " for `ssl_mode`"

namespace Address

def isScheme : List Char → Bool
  | [] => false
  | c :: cs => c.isAlpha && cs.all fun c => c.isAlphanum || "+-.".toList.contains c

def isForbidden (c : Char) : Bool := c.toNat = 0 || "\t\n\r #/:<>?@[\\]^|".toList.contains c

/-- The largest number that a server can listen at. -/
def largestNumber : Nat := 0xFFFF

/-- The number that text names; empty text names none. -/
def number? (cs : List Char) : Except AddressError (Option Nat) :=
  if cs.isEmpty then .ok none
  else
    match Text.readDigits? cs with
    | some n => if n ≤ largestNumber then .ok (some n) else .error .badNumber
    | none => .error .badNumber

/-- Whether the text can stand in brackets: groups of at most four digits between colons,
with one gap or eight groups. The last group may be an address of four numbers. -/
def isBracketed (cs : List Char) : Bool :=
  let groups := Text.splitChars ':' cs
  let gaps := groups.filter List.isEmpty
  let isGroup (g : List Char) : Bool :=
    g.length ≤ 4 && g.all (fun c => (Text.hexValue? c).isSome) || g.contains '.'
  groups.all isGroup && 3 ≤ groups.length &&
    (if gaps.isEmpty then groups.length = 8 || (cs.contains '.' && groups.length = 7)
      else groups.length ≤ 9)

/-- The host and the number it listens at. A host in brackets may hold colons. -/
def hostAndNumber (cs : List Char) : Except AddressError (String × Option Nat) := do
  match cs with
  | '[' :: inner =>
    let some (host, rest) := Text.cutAt ']' inner | throw .badBrackets
    if !isBracketed host then throw .badBrackets
    match rest with
    | [] => return ("[" ++ String.ofList host ++ "]", none)
    | ':' :: digits => return ("[" ++ String.ofList host ++ "]", ← number? digits)
    | _ => throw .badNumber
  | cs =>
    let host := cs.takeWhile (· ≠ ':')
    let rest := cs.drop host.length
    if host.any isForbidden then throw .badHost
    if host.isEmpty && !rest.isEmpty then throw .emptyHost
    return (String.ofList host, ← number? rest.tail)

/-- The part before the last at sign, which says who connects, and the part after it. -/
def cutCredentials (cs : List Char) : Option (List Char) × List Char :=
  let host := (cs.reverse.takeWhile (· ≠ '@')).reverse
  if host.length = cs.length then (none, cs)
  else (some (cs.take (cs.length - host.length - 1)), host)

/-- What a part of the address stands for, if it is not empty. -/
def part? (cs : List Char) : Option String :=
  let s := String.ofList (Utf8.decodeReplacing (Percent.bytes cs))
  if s.isEmpty then none else some s

/-- The ways in which a connection may be encrypted, from not at all on. -/
def encryptions : List String :=
  ["disable", "allow", "prefer", "require", "verify-ca", "verify-full"]

/-- The address with an option of its query string. Options that do not concern the
address are passed over. -/
def withOption (a : Address) (option : String × String) : Except AddressError Address :=
  match option with
  | ("sslmode", v) | ("ssl-mode", v) =>
    if encryptions.contains (Text.lower v) then .ok a else .error (.unknownEncryption v)
  | ("host", v) => .ok { a with host := v }
  | ("port", v) =>
    match Text.readNat? largestNumber v with
    | some n => .ok { a with number := some n }
    | none => .error (.badOption v)
  | ("dbname", v) => .ok { a with database := some v }
  | ("user", v) => .ok { a with user := some v }
  | ("password", v) => .ok { a with password := some v }
  | _ => .ok a

def read (url : String) : Except AddressError Address := do
  let cs := (Text.trim url).toList
  let some (scheme, rest) := Text.cutAt ':' cs | throw .relative
  if !isScheme scheme then throw .relative
  let isEnd (c : Char) : Bool := c = '/' || c = '?' || c = '#'
  let (authority, rest) := match rest with
    | '/' :: '/' :: rest => (rest.takeWhile (!isEnd ·), rest.dropWhile (!isEnd ·))
    | rest => ([], rest)
  let (credentials, server) := cutCredentials authority
  if credentials.isSome && server.isEmpty then throw .emptyHost
  let (host, number) ← hostAndNumber server
  let (user, password) := match credentials with
    | none => (none, none)
    | some cs =>
      let (user, password) := (Text.cutAt ':' cs).getD (cs, [])
      (part? user, part? password)
  let (path, query) := (Text.cutAt '?' (rest.takeWhile (· ≠ '#'))).getD
    (rest.takeWhile (· ≠ '#'), [])
  let address : Address :=
    { host, number, user, password, database := part? (path.dropWhile (· = '/')) }
  (Percent.formPairs (String.ofList query)).foldlM withOption address

/-- The database that a connection is made to; by default it has the name of the user. -/
def target (a : Address) : String := a.database.getD (a.user.getD serverDatabase)

end Address

end Grove.Postgres
