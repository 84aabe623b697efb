import Grove.Text

/-!
# Kinds of columns

The type of a column decides as what a value reaches the server. Types that are used
alike are of one kind.
-/

namespace Grove.Sql

inductive ColumnClass where
  | text | integer | float | bool | json | uuid | timestamp | other
deriving DecidableEq, Inhabited

inductive ValueType where
  | text | int8 | float8 | bool | jsonb | uuid | timestamptz
deriving DecidableEq, Inhabited

def ValueType.name : ValueType → String
  | .text => "TEXT"
  | .int8 => "INT8"
  | .float8 => "FLOAT8"
  | .bool => "BOOL"
  | .jsonb => "JSONB"
  | .uuid => "UUID"
  | .timestamptz => "TIMESTAMPTZ"

namespace ColumnClass

def ofDataType (dataType : String) : ColumnClass :=
  let t := Text.lower (Text.trim dataType)
  match t with
  | "text" | "character varying" | "character" | "citext" => .text
  | "smallint" | "integer" | "bigint" => .integer
  | "real" | "double precision" | "numeric" => .float
  | "boolean" => .bool
  | "json" | "jsonb" => .json
  | "uuid" => .uuid
  | _ => if "timestamp".toList.isPrefixOf t.toList then .timestamp else .other

def typeOfNull : ColumnClass → ValueType
  | .integer => .int8
  | .float => .float8
  | .bool => .bool
  | .json => .jsonb
  | .uuid => .uuid
  | .timestamp => .timestamptz
  | .text | .other => .text

end ColumnClass

end Grove.Sql
