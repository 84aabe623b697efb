import Grove.Sql.Column
import Grove.Uuid
import Grove.Instant
import Grove.Json.Printer
import Grove.Decimal.Reading

/-!
# Parameters

A value goes to the server as a value of some type in that type's binary form. Which type
that is follows from the column that the value meets. A value that is not of the column's
type and does not convert to it goes as what it is, and the server reports the mismatch.
-/

namespace Grove.Sql

inductive Parameter where
  | null
  | bool (b : Bool)
  | int (n : Int)
  | float (x : Binary64)
  | text (s : String)
  | json (v : Json)
  | uuid (u : Uuid)
  | timestamp (t : Instant)
  /-- A null of a column's type. -/
  | nullOf (type : ValueType)
deriving Inhabited

namespace Parameter

/-- The value as what it is: an integer if it fits sixty-four bits with a sign. -/
def ofJson : Json → Parameter
  | .null => .null
  | .bool b => .bool b
  | .number n =>
    match n.int64? with
    | some i => .int i
    | none => .float (.finite n.toDouble)
  | .string s => .text s
  | .array items => .json (.array items)
  | .object members => .json (.object members)

/-- The value as one of the column's type, if it converts. -/
def ofClass (v : Json) (kind : ColumnClass) : Parameter :=
  match kind, v with
  | kind, .null => .nullOf kind.typeOfNull
  | .json, v => .json v
  | .text, .number n => .text n.text
  | .text, .bool b => .text (Json.bool b).compact
  | .integer, .string s =>
    match Text.readInt64? (Text.trim s) with
    | some n => .int n
    | none => .text s
  | .float, .number n => .float (.finite n.toDouble)
  | .float, .string s =>
    match Binary64.read? (Text.trim s) with
    | some x => .float x
    | none => .text s
  | .bool, .string s =>
    match Text.lower (Text.trim s) with
    | "true" => .bool true
    | "false" => .bool false
    | _ => .text s
  | .uuid, .string s =>
    match Uuid.read? s with
    | some u => .uuid u
    | none => .text s
  | .timestamp, .string s =>
    match Instant.read? s with
    | some t => .timestamp t
    | none => .text s
  | _, v => ofJson v

def boundTo (v : Json) : Option ColumnClass → Parameter
  | none => ofJson v
  | some kind => ofClass v kind

def type : Parameter → ValueType
  | .bool _ => .bool
  | .int _ => .int8
  | .float _ => .float8
  | .json _ => .jsonb
  | .uuid _ => .uuid
  | .timestamp _ => .timestamptz
  | .nullOf type => type
  | .null | .text _ => .text

/-- The bytes of an unsigned number, most significant first. -/
def bigEndian (width n : Nat) : List Nat :=
  (List.range width).reverse.map fun i => n / twoTo (8 * i) % 256

def signedBytes (n : Int) : List Nat := bigEndian 8 (n % 0x10000000000000000).toNat

def textBytes (s : String) : List Nat := s.toUTF8.toList.map UInt8.toNat

def bytes : Parameter → Option (List Nat)
  | .null | .nullOf _ => none
  | .bool b => some [if b then 1 else 0]
  | .int n => some (signedBytes n)
  | .float x => some (bigEndian 8 x.toBits)
  | .text s => some (textBytes s)
  | .json v => some (1 :: textBytes v.compact)
  | .uuid u => some u.bytes
  | .timestamp t => some (signedBytes t.microseconds)

end Parameter

end Grove.Sql
