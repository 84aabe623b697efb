import Grove.Postgres.Store
import Grove.Proofs.Outcome
import Grove.Proofs.Postgres.Arranged
import Grove.Proofs.Sql.Request

/-!
# Servers that hold tables

Of a server nothing is known but what it is sent and what it answers. This module says what it
means that it holds tables and answers from them: it understands a text as a request, takes the
parameters for the values in it, and counts or gives out the rows for which the condition is true
(`Server.Keeps`). In which order it gives them out is its own choice, and another one for each
statement, as long as the keys of the statement are in order. What values are compared as, and in
what order they are, stays open (`Values`).

What the operations of a store come to is said by the rows that its condition selects
(`TableStore.selects`), which does not look at texts any more.
-/

namespace Grove

namespace Sql

variable {α : Type}

/-! ## Parameters by their places -/

def places (count : Nat) : List (Json × Option String) :=
  (List.range count).map fun k => (Json.ofNat k, none)

/-- The same decisions about a statement whose parameters have arrived. -/
def Server.receiving (server : Server α) (arrived : List (Option α)) : Server α :=
  { server with
    bind := fun place _ =>
      match place with
      | .number (.int k) => (arrived[k.toNat]?).join
      | _ => none }

namespace Term

variable {server : Server α} {given : List (Json × Option String)} {arrived : List (Option α)}

theorem bind_places (k : Nat) :
    ((places arrived.length)[k]?.bind fun p => (server.receiving arrived).bind p.1 p.2) =
      arrived[k]?.join := by
  rcases Nat.lt_or_ge k arrived.length with hk | hk
  · simp [places, hk, Server.receiving, Json.ofNat]
  · simp [places, hk]

mutual

/-- What an expression comes to depends on the parameters only by what they arrive as. -/
theorem value_receiving (row : String → Option α)
    (h : given.map (fun p => server.bind p.1 p.2) = arrived) (e : Term) :
    e.value (server.receiving arrived) row (places arrived.length) = e.value server row given := by
  match e with
  | .column _ | .literal _ | .constant _ | .parameter 0 => rfl
  | .parameter (k + 1) =>
      rw [value, bind_places, value, ← h, List.getElem?_map]
      cases given[k]? <;> rfl
  | .cast e type =>
      rw [value, value, value_receiving row h e]
      rfl
  | .coalesce e other => rw [value, value, value_receiving row h e, value_receiving row h other]
  | .operation symbol left right =>
      rw [value, value, value_receiving row h left, value_receiving row h right]
      rfl
  | .isNull e | .isNotNull e =>
      rw [value, value, value_receiving row h e]
      rfl
  | .distinct left right =>
      rw [value, value, value_receiving row h left, value_receiving row h right]
      rfl
  | .among e es | .notAmong e es =>
      rw [value, value, value_receiving row h e, values_receiving row h es]
      rfl
  | .not e =>
      rw [value, value, value_receiving row h e]
      rfl
  | .and parts | .or parts =>
      rw [value, value, values_receiving row h parts]
      rfl

theorem values_receiving (row : String → Option α)
    (h : given.map (fun p => server.bind p.1 p.2) = arrived) (es : List Term) :
    values (server.receiving arrived) row (places arrived.length) es =
      values server row given es := by
  match es with
  | [] => rfl
  | e :: es =>
      rw [values, values, value_receiving row h e, values_receiving row h es]

end

theorem truth_receiving (row : String → Option α)
    (h : given.map (fun p => server.bind p.1 p.2) = arrived) (e : Term) :
    e.truth (server.receiving arrived) row (places arrived.length) = e.truth server row given :=
  congrArg server.truth (value_receiving row h e)

end Term

end Sql

namespace Postgres

variable {ω α : Type}

/-! ## Rows -/

/-- What a server decides about values, about parameters as they are sent and about rows. -/
structure Values (α : Type) extends Sql.Server α where
  /-- What a parameter arrives as. -/
  arrive : Sql.Parameter → Option α
  /-- The columns of a table, in the order of the cells of its rows. -/
  columns : Sql.Table → List String
  /-- What is in the column of a row of a table. -/
  held : Sql.Table → List Cell → String → Option α
  /-- The order of values; null has a place in it. -/
  order : Option α → Option α → Ordering
  ordered : Std.TransCmp order

namespace Values

variable (v : Values α) (table : Sql.Table)

def selects (parameters : List Sql.Parameter) (condition : Sql.Term) (row : List Cell) : Bool :=
  condition.truth (v.receiving (parameters.map v.arrive)) (v.held table row)
    (Sql.places parameters.length) == some true

def compareBy (key : OrderKey) (row other : List Cell) : Ordering :=
  let o := v.order (v.held table row key.field) (v.held table other key.field)
  if key.descending then o.swap else o

/-- The order of two rows: what the first key says that tells them apart. -/
def compareByAll (keys : List OrderKey) (row other : List Cell) : Ordering :=
  match keys with
  | [] => .eq
  | key :: keys => (v.compareBy table key row other).then (compareByAll keys row other)

instance (key : OrderKey) : Std.TransCmp (v.compareBy table key) := by
  have := v.ordered
  have hheld : Std.TransCmp fun row other =>
      v.order (v.held table row key.field) (v.held table other key.field) :=
    { eq_swap := Std.OrientedCmp.eq_swap, isLE_trans := Std.TransCmp.isLE_trans }
  cases hdescending : key.descending with
  | false =>
      have hsame : v.compareBy table key = fun row other =>
          v.order (v.held table row key.field) (v.held table other key.field) := by
        funext row other
        rw [compareBy, hdescending]
        rfl
      rwa [hsame]
  | true =>
      have hturned : v.compareBy table key = fun row other =>
          v.order (v.held table other key.field) (v.held table row key.field) := by
        funext row other
        rw [compareBy, hdescending]
        exact Std.OrientedCmp.eq_swap.symm
      rw [hturned]
      exact Std.TransCmp.opposite

instance (keys : List OrderKey) : Std.TransCmp (v.compareByAll table keys) := by
  induction keys with
  | nil => exact { eq_swap := rfl, isLE_trans := fun _ _ => rfl }
  | cons key keys ih =>
      have hlex : v.compareByAll table (key :: keys) =
          compareLex (v.compareBy table key) (v.compareByAll table keys) := rfl
      rw [hlex]
      infer_instance

/-- Rows that the keys do not tell apart are alike in each of them. -/
theorem order_eq_of_compareByAll {keys : List OrderKey} {row other : List Cell}
    (h : v.compareByAll table keys row other = .eq) {key : OrderKey} (hkey : key ∈ keys) :
    v.order (v.held table row key.field) (v.held table other key.field) = .eq := by
  induction keys with
  | nil => cases hkey
  | cons first keys ih =>
      rw [compareByAll, Ordering.then_eq_eq] at h
      rcases List.mem_cons.mp hkey with rfl | hkey
      · have hfirst := h.1
        rw [compareBy] at hfirst
        split at hfirst
        · exact Ordering.swap_eq_eq.mp hfirst
        · exact hfirst
      · exact ih h.2 hkey

end Values

/-! ## Answers -/

/-- The server holds tables: what it is asked for in its present state, if it does not refuse, it
answers from their rows. An update concerns the rows for which its condition is true, and a
selection gives out its window of them, in some order that its keys admit. -/
structure Server.Keeps (server : Server ω) (v : Values α)
    (content : ω → Sql.Table → List (List Cell)) : Prop where
  update : ∀ {sql : String} {parameters : List Sql.Parameter} {table : Sql.Table}
    {condition : Sql.Term} {w w' : ω} {reply : Reply},
    Sql.Request.ofText sql = some (.update table condition) →
    server.answer (.statement sql parameters) w = (.ok reply, w') →
    reply.affected = ((content w table).filter (v.selects table parameters condition)).length
  select : ∀ {sql : String} {parameters : List Sql.Parameter} {table : Sql.Table}
    {condition : Sql.Term} {keys : List OrderKey} {window : Window} {w w' : ω} {reply : Reply},
    Sql.Request.ofText sql = some (.select table condition keys window) →
    server.answer (.statement sql parameters) w = (.ok reply, w') →
    ∃ arranged, Arranged (v.compareByAll table keys)
      ((content w table).filter (v.selects table parameters condition)) arranged ∧
        reply.rows = window.cut arranged

/-- How a server in each of its states arranges rows by keys. -/
structure Values.Arrangement (v : Values α) (ω : Type) where
  arrange : ω → Sql.Table → List OrderKey → List (List Cell) → List (List Cell)
  arranged : ∀ w table keys rows,
    Arranged (v.compareByAll table keys) rows (arrange w table keys rows)

namespace Values

variable (v : Values α) (content : Sql.Table → List (List Cell)) (arrangement : v.Arrangement ω)

/-- The answer to a request from the rows of the tables. -/
def reply (w : ω) (parameters : List Sql.Parameter) : Sql.Request → Reply
  | .update table condition =>
    { affected := ((content table).filter (v.selects table parameters condition)).length }
  | .select table condition keys window =>
    { columns := v.columns table
      rows := window.cut (arrangement.arrange w table keys
        ((content table).filter (v.selects table parameters condition))) }

/-- A server that answers every request that it understands from the same rows. -/
def server : Server ω where
  answer
    | .statement sql parameters, w =>
      match Sql.Request.ofText sql with
      | some request => (.ok (v.reply content arrangement w parameters request), w)
      | none => (.error (.connection "not understood"), w)
    | _, w => (.ok {}, w)

theorem answer_server {sql : String} {request : Sql.Request}
    (h : Sql.Request.ofText sql = some request) (parameters : List Sql.Parameter) (w : ω) :
    (v.server content arrangement).answer (.statement sql parameters) w =
      (.ok (v.reply content arrangement w parameters request), w) := by
  simp only [server, h]

theorem keeps_server : (v.server content arrangement).Keeps v fun _ => content where
  update hrequest hanswer := by
    rw [answer_server _ _ _ hrequest] at hanswer
    cases hanswer
    rfl
  select hrequest hanswer := by
    rw [answer_server _ _ _ hrequest] at hanswer
    cases hanswer
    exact ⟨_, arrangement.arranged .., rfl⟩

end Values

/-- Values that are texts in columns of text. Two are equal or not, and null is ordered like the
text without characters. -/
def textValues (columns : List String) : Values String where
  bind _ _ := none
  literal := id
  cast _ := some
  operate _ a b := some (if a = b then "t" else "f")
  boolean b := if b then "t" else "f"
  isTrue a := a == "t"
  isTrue_boolean b := by cases b <;> rfl
  arrive
    | .text s => some s
    | _ => none
  columns _ := columns
  held _ row column := ((columns.zip row).lookup column).bind Cell.text?
  order := compareOn fun a => a.getD ""
  ordered := inferInstance

def accountTable : TableStore :=
  { table := ⟨"public", "accounts"⟩, keys := { primaryKey := "uuid", assigns := false },
    columns := [("uuid", .text), ("state", .text)] }

def accountValues : Values String := textValues ["uuid", "state"]

def accountRow (key state : String) : List Cell := [.text .text key, .text .text state]

def Values.sorting (v : Values α) : v.Arrangement Unit where
  arrange _ table keys rows :=
    rows.mergeSort fun row other => (v.compareByAll table keys row other).isLE
  arranged _ _ _ rows := arranged_mergeSort rows

end Postgres

namespace TableStore

open Postgres

variable {ω α : Type} (s : TableStore) (v : Values α)

/-- What the server decides, where a value goes to it as one of its column's type. -/
def decisions : Sql.Server α :=
  { v.toServer with
    bind := fun value column => v.arrive (Sql.Parameter.boundTo value (column.bind s.kind?)) }

def selects (condition : Sql.Condition) (row : List Cell) : Bool :=
  condition.truth (s.decisions v) (v.held s.table row) == some true

theorem selects_statement {statement : Sql.Statement} {condition : Sql.Condition} {e : Sql.Term}
    (h : ∀ (α : Type) (server : Sql.Server α) (row : String → Option α),
      e.truth server row statement.parameters = condition.truth server row) :
    v.selects s.table (s.parameters statement) e = s.selects v condition := by
  funext row
  have harrived : statement.parameters.map (fun p => (s.decisions v).bind p.1 p.2) =
      (s.parameters statement).map v.arrive := by
    rw [parameters, List.map_map]
    rfl
  have htruth := Sql.Term.truth_receiving (v.held s.table row) harrived e
  rw [h, List.length_map] at htruth
  rw [selects, ← htruth]
  rfl

variable (server : Server ω) {c : Option Criteria} {w : Sql.Condition} {g : Gateway ω}

theorem outcome_run (statement : Sql.Statement) :
    (s.run server statement).outcome g =
      match server.answer (.statement statement.text (s.parameters statement)) g.world with
      | (.ok reply, world) => (.ok reply, { g with world })
      | (.error e, world) => (.error e.failure, { g with world }) := by
  rw [run, Gateway.onServer, Attempt.outcome_within, Server.run, Server.send,
    Attempt.outcome_ofOutcome]
  rcases server.answer (.statement statement.text (s.parameters statement)) g.world with
    ⟨_ | _, _⟩ <;> rfl

theorem outcome_update (hc : Criteria.condition c = .ok w) (changes : Record) :
    (s.update server c changes).outcome g =
      match Sql.update s.table w (s.keys.withoutKey changes) with
      | none => (.ok 0, g)
      | some statement =>
        match server.answer (.statement statement.text (s.parameters statement)) g.world with
        | (.ok reply, world) => (.ok reply.affected, { g with world })
        | (.error e, world) => (.error e.failure, { g with world }) := by
  rw [update, condition, hc, Attempt.outcome_bind, Attempt.outcome_liftM]
  show Attempt.outcome (match Sql.update s.table w (s.keys.withoutKey changes) with
    | none => return 0
    | some statement => return (← s.run server statement).affected) g = _
  cases Sql.update s.table w (s.keys.withoutKey changes) with
  | none => rfl
  | some statement =>
      simp only [Attempt.outcome_bind, outcome_run]
      rcases server.answer (.statement statement.text (s.parameters statement)) g.world with
        ⟨_ | _, _⟩ <;> rfl

def selection (condition : Sql.Condition) (options : Paging) : Sql.Statement :=
  Sql.select s.table condition options.sort s.keys.primaryKey options.window

theorem outcome_query (hc : Criteria.condition c = .ok w) (options : Paging) :
    (s.query server c options).outcome g =
      match server.answer (.statement (s.selection w options).text
        (s.parameters (s.selection w options))) g.world with
      | (.ok reply, world) => (.ok reply.records, { g with world })
      | (.error e, world) => (.error e.failure, { g with world }) := by
  rw [query, condition, hc, Attempt.outcome_bind, Attempt.outcome_liftM]
  show Attempt.outcome (do return (← s.run server (s.selection w options)).records) g = _
  simp only [Attempt.outcome_bind, outcome_run]
  rcases server.answer (.statement (s.selection w options).text
    (s.parameters (s.selection w options))) g.world with ⟨_ | _, _⟩ <;> rfl

/-- A query of a server with tables is answered with its window of the rows that the condition
selects, as the server arranges them. -/
theorem answer_selection (content : Sql.Table → List (List Cell)) (arrangement : v.Arrangement ω)
    (hc : Criteria.condition c = .ok w) (options : Paging) (state : ω) :
    (v.server content arrangement).answer (.statement (s.selection w options).text
      (s.parameters (s.selection w options))) state =
        (.ok { columns := v.columns s.table
               rows := options.window.cut (arrangement.arrange state s.table
                 (Sql.orderOf options.sort s.keys.primaryKey)
                 ((content s.table).filter (s.selects v w))) }, state) := by
  obtain ⟨e, hrequest, hmeaning⟩ := Sql.Request.ofText_select (t := s.table) hc options.sort
    s.keys.primaryKey options.window
  have hselects : v.selects s.table (s.parameters (s.selection w options)) e = s.selects v w :=
    s.selects_statement v hmeaning
  rw [← hselects]
  exact v.answer_server content arrangement hrequest _ state

end TableStore

end Grove
