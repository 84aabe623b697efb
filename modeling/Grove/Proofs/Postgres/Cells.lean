import Mathlib.Data.List.Forall2
import Grove.Postgres.Row
import Grove.Proofs.Instant
import Grove.Proofs.Uuid
import Grove.Sql.Column

/-!
# Cells that are read back

Values reach the columns of a table by the kind of the column's type, and come back by the type of
the cell. The kinds cover more types than the cells that are read. A cell stands for a value that a
JSON value may denote (`Cell.Denotes`). It is read as such a value where its type is one of those
that resources are stored with, and as null in the others (`read_back_iff`).
-/

namespace Grove

namespace Record

variable {fields : List (String × Json)} {name : String}

theorem get?_update_of_not_mem (r : Record) (h : name ∉ fields.map Prod.fst) :
    (r.update ⟨fields⟩).get? name = r.get? name := by
  induction fields generalizing r with
  | nil => rfl
  | cons field fields ih =>
      rw [List.map_cons, List.mem_cons, not_or] at h
      have hrest := ih (r.insert field.1 field.2) h.2
      rw [get?_insert, if_neg h.1] at hrest
      exact hrest

/-- Of fields with different names, each one is there. -/
theorem get?_ofList {value : Json} (hdistinct : (fields.map Prod.fst).Nodup)
    (h : (name, value) ∈ fields) : (ofList fields).get? name = some value := by
  rw [ofList]
  generalize (⟨[]⟩ : Record) = r
  induction fields generalizing r with
  | nil => cases h
  | cons field fields ih =>
      obtain ⟨hfirst, hrest⟩ := List.nodup_cons.mp hdistinct
      rcases List.mem_cons.mp h with rfl | h
      · have hlast := get?_update_of_not_mem (r.insert name value) hfirst
        rw [get?_insert, if_pos rfl] at hlast
        exact hlast
      · exact ih hrest h _

end Record

namespace Postgres

/-- The names that the server's catalogue has for the types of text. -/
def TextType.dataTypes : TextType → List String
  | .text => ["text", "citext"]
  | .name => ["name"]
  | .bpchar => ["character"]
  | .varchar => ["character varying"]

namespace Cell

/-- The names that the server's catalogue has for the type of a cell with a value. -/
def dataTypes : Cell → List String
  | null => []
  | bool _ => ["boolean"]
  | int2 _ => ["smallint"]
  | int4 _ => ["integer"]
  | int8 _ => ["bigint"]
  | float4 _ => ["real"]
  | float8 _ => ["double precision"]
  | numeric _ => ["numeric"]
  | date _ => ["date"]
  | timestamp _ => ["timestamp without time zone"]
  | timestamptz _ => ["timestamp with time zone"]
  | uuid _ => ["uuid"]
  | text type _ => type.dataTypes
  | bytea _ => ["bytea"]
  | json _ => ["json"]
  | jsonb _ => ["jsonb"]

/-- Whether a JSON value stands for the value of a cell. Numbers are equal, an identifier and an
instant are what reading the text gives, and a date and time on a local clock are written like
those of an instant, without a distance from universal time. -/
def Denotes : Cell → Json → Prop
  | bool b, v => v = .bool b
  | int2 n, v | int4 n, v | int8 n, v => v = .number (.int n)
  | float4 x, v | float8 x, v => ∃ d, x = .finite d ∧ v = .number (.float d)
  | numeric digits, v => ∃ n, Json.read? digits = some (.number n) ∧ v = .number n
  | timestamp n, v => ∃ s, v = .string s ∧ Instant.readLong? (s ++ "Z") = some (.ofMicroseconds n)
  | timestamptz n, v => ∃ s, v = .string s ∧ Instant.readLong? s = some (.ofMicroseconds n)
  | uuid u, v => ∃ s, v = .string s ∧ Uuid.read? s = some u
  | text _ s, v => v = .string s
  | json s, v | jsonb s, v => Json.read? s = some v
  | null, _ | date _, _ | bytea _, _ => False

def isRead : Cell → Bool
  | bool _ | int4 _ | int8 _ | float8 _ | timestamptz _ | uuid _ | text .. | json _ | jsonb _ =>
    true
  | _ => false

variable {c : Cell}

theorem toJson_of_not_isRead (h : c.isRead = false) : c.toJson = .null := by
  cases c with
  | bool | int4 | int8 | float8 | timestamptz | uuid | text | json | jsonb => cases h
  | null | int2 | float4 | numeric | date | timestamp | bytea => rfl

/-- A value that a JSON value other than null denotes is read as such a one. -/
theorem denotes_toJson (h : c.isRead = true) (hvalue : ∃ v : Json, v.isNull = false ∧ c.Denotes v) :
    c.toJson.isNull = false ∧ c.Denotes c.toJson := by
  obtain ⟨v, hv, hdenotes⟩ := hvalue
  cases c with
  | bool | int4 | int8 | text => exact ⟨rfl, rfl⟩
  | float8 x =>
      obtain ⟨d, rfl, -⟩ := hdenotes
      exact ⟨rfl, d, rfl, rfl⟩
  | timestamptz n => exact ⟨rfl, _, rfl, Instant.readLong?_text _⟩
  | uuid u =>
      obtain ⟨s, -, hs⟩ := hdenotes
      exact ⟨rfl, _, rfl, Uuid.read?_text (Uuid.value_lt_of_read? hs)⟩
  | json s | jsonb s =>
      have hread : Json.read? s = some v := hdenotes
      simp only [toJson, hread, Option.getD_some]
      exact ⟨hv, hread⟩
  | null | int2 | float4 | numeric | date | timestamp | bytea => cases h

/-- The types whose cells are not read, although values are written to such columns by the kind of
the type. -/
def unreadTypes : List String := ["smallint", "real", "numeric", "timestamp without time zone"]

theorem mem_unreadTypes_iff {dataType : String} (htype : dataType ∈ c.dataTypes)
    (hkind : Sql.ColumnClass.ofDataType dataType ≠ .other) :
    dataType ∈ unreadTypes ↔ c.isRead = false := by
  cases c with
  | null => cases htype
  | bool | int4 | int8 | float8 | timestamptz | uuid | json | jsonb =>
      obtain rfl := List.mem_singleton.mp htype
      exact iff_of_false (by decide) nofun
  | int2 | float4 | numeric | timestamp =>
      obtain rfl := List.mem_singleton.mp htype
      exact iff_of_true (by decide) rfl
  | date | bytea =>
      obtain rfl := List.mem_singleton.mp htype
      exact absurd (by decide) hkind
  | text type s =>
      refine iff_of_false ?_ nofun
      have hall : ∀ t ∈ type.dataTypes, t ∉ unreadTypes := by cases type <;> decide
      exact hall dataType htype

end Cell

/-- Of a row whose columns have different names, the record has each column. A cell in a column of
a type that has a kind, with a value that some JSON value other than null stands for, is read as
such a value unless the type is one of four, and then it is read as null. -/
theorem read_back_iff {columns : List String} {cells : List Cell} (hdistinct : columns.Nodup)
    {name : String} {c : Cell} (hcell : (name, c) ∈ columns.zip cells) {dataType : String}
    (htype : dataType ∈ c.dataTypes) (hkind : Sql.ColumnClass.ofDataType dataType ≠ .other)
    (hvalue : ∃ v : Json, v.isNull = false ∧ c.Denotes v) :
    ∃ v, (recordOfRow columns cells).get? name = some v ∧
      ((v.isNull = false ∧ c.Denotes v) ↔ dataType ∉ Cell.unreadTypes) ∧
      (dataType ∈ Cell.unreadTypes → v = .null) := by
  have hnames :
      (((columns.zip cells).map fun cell => (cell.1, cell.2.toJson)).map Prod.fst).Nodup := by
    have hzip : ((columns.zip cells).map fun cell => (cell.1, cell.2.toJson)).map Prod.fst =
        (columns.zip cells).map Prod.fst := by
      rw [List.map_map]
      rfl
    rw [hzip, List.zip_eq_zip_take_min, List.map_fst_zip (by simp)]
    exact (List.take_sublist _ _).nodup hdistinct
  have hget : (recordOfRow columns cells).get? name = some c.toJson :=
    Record.get?_ofList hnames (List.mem_map_of_mem (f := fun cell => (cell.1, cell.2.toJson)) hcell)
  have hunread := Cell.mem_unreadTypes_iff htype hkind
  refine ⟨_, hget, ?_, fun h => Cell.toJson_of_not_isRead (hunread.mp h)⟩
  rw [hunread, Bool.not_eq_false]
  cases hread : c.isRead with
  | true => exact iff_of_true (Cell.denotes_toJson hread hvalue) rfl
  | false =>
      rw [Cell.toJson_of_not_isRead hread]
      exact iff_of_false (fun h => nomatch h.1) nofun

/-- An hour before the year 2000 is read, and a small number beside it is not. -/
theorem read_back_iff_mixed :
    let columns := ["made", "size"]
    let cells : List Cell := [.timestamptz (-3600000000), .int2 5]
    columns.Nodup ∧
    (("made", .timestamptz (-3600000000)) ∈ columns.zip cells ∧
      Sql.ColumnClass.ofDataType "timestamp with time zone" = .timestamp ∧
      ∃ v, (recordOfRow columns cells).get? "made" = some v ∧ v.isNull = false ∧
        (Cell.timestamptz (-3600000000)).Denotes v) ∧
    (("size", .int2 5) ∈ columns.zip cells ∧
      Sql.ColumnClass.ofDataType "smallint" = .integer ∧ (Cell.int2 5).Denotes (.number (.int 5)) ∧
      (recordOfRow columns cells).get? "size" = some .null) := by
  intro columns cells
  have hdistinct : columns.Nodup := by decide
  refine ⟨hdistinct, ⟨.head _, rfl, ?_⟩, ⟨.tail _ (.head _), rfl, rfl, ?_⟩⟩
  · obtain ⟨v, hget, hread, -⟩ := read_back_iff hdistinct
      (show ("made", .timestamptz (-3600000000)) ∈ columns.zip cells from .head _)
      (show "timestamp with time zone" ∈ _ from .head _) (by decide)
      ⟨_, rfl, _, rfl, Instant.readLong?_text _⟩
    obtain ⟨hsome, hdenotes⟩ := hread.mpr (by decide)
    exact ⟨v, hget, hsome, hdenotes⟩
  · obtain ⟨v, hget, -, hnull⟩ := read_back_iff hdistinct
      (show ("size", .int2 5) ∈ columns.zip cells from .tail _ (.head _))
      (show "smallint" ∈ _ from .head _) (by decide) ⟨.number (.int 5), rfl, rfl⟩
    rw [hget, hnull (by decide)]

/-- In a row with a column of each of the four types, which all have a kind, the cells have values
that JSON values stand for, and all fields of the record are null. -/
theorem values_lost :
    let cells : List Cell := [.int2 5, .float4 (.finite (.ofInt 5)), .numeric "5", .timestamp 0]
    Cell.unreadTypes.map Sql.ColumnClass.ofDataType = [.integer, .float, .float, .timestamp] ∧
    List.Forall₂ (fun dataType c => dataType ∈ c.dataTypes) Cell.unreadTypes cells ∧
    List.Forall₂ Cell.Denotes cells [.number (.int 5), .number (.float (.ofInt 5)),
      .number (.int 5), .string "2000-01-01T00:00:00"] ∧
    ∀ name ∈ Cell.unreadTypes, (recordOfRow Cell.unreadTypes cells).get? name = some .null := by
  intro cells
  have hinstant : Instant.readLong? ("2000-01-01T00:00:00" ++ "Z") = some (.ofMicroseconds 0) := by
    decide +kernel
  refine ⟨by decide, ?_, ?_, ?_⟩
  · exact .cons (.head _) (.cons (.head _) (.cons (.head _) (.cons (.head _) .nil)))
  · exact .cons rfl (.cons ⟨_, rfl, rfl⟩ (.cons ⟨.int 5, rfl, rfl⟩ (.cons ⟨_, rfl, hinstant⟩ .nil)))
  · have hdistinct : Cell.unreadTypes.Nodup := by decide
    simp only [Cell.unreadTypes, List.forall_mem_cons]
    exact ⟨Record.get?_ofList hdistinct (.head _),
      Record.get?_ofList hdistinct (.tail _ (.head _)),
      Record.get?_ofList hdistinct (.tail _ (.tail _ (.head _))),
      Record.get?_ofList hdistinct (.tail _ (.tail _ (.tail _ (.head _)))), nofun⟩

end Postgres

end Grove
