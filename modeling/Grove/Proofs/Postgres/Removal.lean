import Grove.Proofs.Postgres.Cells
import Grove.Proofs.Postgres.Contents
import Grove.Proofs.Sql.Placeholders
import Grove.Proofs.Steward.Keys

/-!
# How wide the statements of a removal are

A statement has a place for each of its parameters, and a server counts them in sixteen bits. A
removal finds what depends on the records by a list of their keys, and each key is a parameter. The
keys are read in windows, but then they all go into one statement.

So a removal keeps within a limit exactly if its own criteria do and no more keys than that are
read on any level of its way down (`removal_within_iff`). The statements that it sends are written
down by a server that records them, and `Sends` says of an attempt when they keep within the limit.
It is carried along the steps of the removal, and where these go down to a child, along
`Steward.Descends`.
-/

namespace Grove

open Postgres

variable {ω α β : Type}

namespace Postgres

def Sent.width : Sent → Nat
  | .statement _ parameters => parameters.length
  | .connect _ | .script _ => 0

/-- The parameters of a statement are counted in sixteen bits. -/
def Sent.greatestWidth : Nat := 65535

/-- A server that answers like another one and writes down what it is sent. -/
def Server.recorded (server : Server ω) : Server (ω × List Sent) where
  answer what w :=
    let answered := server.answer what w.1
    (answered.1, answered.2, w.2 ++ [what])

end Postgres

abbrev Gateway.recording (server : Server ω) : Backend (Gateway (ω × List Sent)) TableStore :=
  Gateway.backend server.recorded

/-! ## What an attempt sends -/

/-- What the attempt sends is written down, and keeps within the limit exactly if `fits` holds. -/
def Sends (limit : Nat) (fits : Prop) (g : Gateway (ω × List Sent))
    (x : Attempt (Gateway (ω × List Sent)) α) : Prop :=
  ∃ sent, (x.outcome g).2.world.2 = g.world.2 ++ sent ∧
    ((∀ what ∈ sent, what.width ≤ limit) ↔ fits)

namespace Sends

variable {limit : Nat} {fits others : Prop} {g : Gateway (ω × List Sent)}
  {x : Attempt (Gateway (ω × List Sent)) α} {next : α → Attempt (Gateway (ω × List Sent)) β}

theorem nothing (h : (x.outcome g).2 = g) : Sends limit True g x :=
  ⟨[], by rw [h, List.append_nil], iff_of_true nofun trivial⟩

theorem congr (hx : Sends limit fits g x) (h : fits ↔ others) : Sends limit others g x := by
  obtain ⟨sent, hlog, hfits⟩ := hx
  exact ⟨sent, hlog, hfits.trans h⟩

/-- What comes after a step is sent only if the step succeeds, and it matters only if the step
fits. -/
theorem bind (rest : α → Gateway (ω × List Sent) → Prop) (hx : Sends limit fits g x)
    (hnext : ∀ a u, x.outcome g = (.ok a, u) →
      ∃ after, Sends limit after u (next a) ∧ (fits → (after ↔ rest a u))) :
    Sends limit (fits ∧ ∀ a u, x.outcome g = (.ok a, u) → rest a u) g (x >>= next) := by
  obtain ⟨sent, hlog, hfits⟩ := hx
  rw [Sends, Attempt.outcome_bind]
  rcases hx : x.outcome g with ⟨f | a, u⟩
  · rw [hx] at hlog
    exact ⟨sent, hlog, hfits.trans (and_iff_left nofun).symm⟩
  · rw [hx] at hlog
    obtain ⟨after, ⟨more, hmore, hafter⟩, hrest⟩ := hnext a u hx
    refine ⟨sent ++ more, by rw [hmore, hlog, List.append_assoc], ?_⟩
    rw [List.forall_mem_append, hfits, hafter]
    refine and_congr_right fun h => (hrest h).trans ⟨fun ha a' u' hsame => ?_, fun ha => ha a u rfl⟩
    cases hsame
    exact ha

/-- Where what comes after a step fits if the step does, only the step matters. -/
theorem bind_of_imp (hx : Sends limit fits g x)
    (hnext : ∀ a u, x.outcome g = (.ok a, u) →
      ∃ after, Sends limit after u (next a) ∧ (fits → after)) :
    Sends limit fits g (x >>= next) := by
  have honly : fits ∧ (∀ a u, x.outcome g = (.ok a, u) → True) ↔ fits :=
    and_iff_left fun _ _ _ => trivial
  refine (hx.bind (fun _ _ => True) fun a u ha => ?_).congr honly
  obtain ⟨after, hsends, himp⟩ := hnext a u ha
  exact ⟨after, hsends, fun h => iff_of_true (himp h) trivial⟩

/-- What comes after a step may send nothing at all. -/
theorem bind_nothing (hx : Sends limit fits g x) (hnext : ∀ a u, ((next a).outcome u).2 = u) :
    Sends limit fits g (x >>= next) :=
  hx.bind_of_imp fun a u _ => ⟨True, .nothing (hnext a u), fun _ => trivial⟩

end Sends

/-- No more values than the limit are in criteria, if a store accepts them. -/
def Criteria.Within (limit : Nat) (c : Option Criteria) : Prop :=
  ∀ w, condition c = .ok w → (boundBy c).length ≤ limit

/-! ## Stores -/

namespace TableStore

variable {server : Server ω} {s : TableStore} {c : Option Criteria} {limit : Nat}
  {g : Gateway (ω × List Sent)}

theorem sends_run (statement : Sql.Statement) :
    Sends limit ((Sql.Statement.parameters statement).length ≤ limit) g
      (s.run server.recorded statement) := by
  refine ⟨[.statement statement.text (s.parameters statement)], ?_, ?_⟩
  · rw [outcome_run]
    simp only [Server.recorded]
    rcases server.answer (.statement statement.text (s.parameters statement)) g.world.1 with
      ⟨_ | _, _⟩ <;> rfl
  · rw [List.forall_mem_singleton, Sent.width, parameters, List.length_map]

/-- An operation that is a single statement sends the values of its criteria. -/
theorem sends_command {statement : Sql.Condition → Sql.Statement}
    (hbound : ∀ w, Criteria.condition c = .ok w → (statement w).parameters = Criteria.boundBy c)
    (answer : Postgres.Reply → α) :
    Sends limit (Criteria.Within limit c) g (do
      let w ← condition c
      let reply ← s.run server.recorded (statement w)
      return answer reply) := by
  cases hc : Criteria.condition c with
  | error e =>
      rw [condition, hc]
      refine (Sends.nothing rfl).congr (iff_of_true trivial fun w hw => ?_)
      rw [hc] at hw
      cases hw
  | ok w =>
      rw [condition, hc]
      have hrun : Sends limit (Criteria.Within limit c) g
          (s.run server.recorded (statement w)) := by
        refine (sends_run (statement w)).congr ?_
        rw [hbound w hc]
        exact ⟨fun h _ _ => h, fun h => h w hc⟩
      exact hrun.bind_nothing fun _ _ => rfl

theorem sends_query (o : Paging) :
    Sends limit (Criteria.Within limit c) g (s.query server.recorded c o) := by
  refine sends_command (fun w hw => ?_) Postgres.Reply.records
  have hstatement : (Sql.Command.select o.sort s.keys.primaryKey o.window).statement s.table w =
    some (s.selection w o) := rfl
  exact Sql.Command.parameters_statement (Criteria.aligned_clause hw).2 hstatement

theorem sends_remove : Sends limit (Criteria.Within limit c) g (s.remove server.recorded c) := by
  refine sends_command (fun w hw => ?_) Postgres.Reply.affected
  have hstatement : Sql.Command.delete.statement s.table w = some (Sql.delete s.table w) := rfl
  exact Sql.Command.parameters_statement (Criteria.aligned_clause hw).2 hstatement

end TableStore

/-! ## The way down -/

namespace Steward

section Descent

variable {σ ρ : Type} (b : Backend σ ρ)

/-- When the records that belong to the keys are removed from the children one after the other, it
is a child's turn in the last state. -/
inductive Turn (keys : List Json) :
    List (ChildRef × Steward ρ) → σ → ChildRef → Steward ρ → σ → Prop
  | first {link : ChildRef} {child : Steward ρ} {rest : List (ChildRef × Steward ρ)} {s : σ}
    (cascades : link.cascades = true) : Turn keys ((link, child) :: rest) s link child s
  | later {below : ChildRef × Steward ρ} {rest : List (ChildRef × Steward ρ)} {link : ChildRef}
    {child : Steward ρ} {s t u : σ} (done : (removeBelow b keys [below]).outcome s = (.ok (), t))
    (turn : Turn keys rest t link child u) : Turn keys (below :: rest) s link child u

/-- A removal of the records that the criteria select comes to a child, with the keys of the
records. -/
def Enters (c : Option Criteria) (m : Steward ρ) (s : σ) (link : ChildRef) (keys : List Json)
    (child : Steward ρ) (u : σ) : Prop :=
  keys ≠ [] ∧ ∃ t, (selectedKeys b m.store c).outcome s = (.ok keys, t) ∧
    Turn b keys m.children t link child u

/-- A removal comes, on some level below, to a child with keys. -/
inductive Descends : Option Criteria → Steward ρ → σ → ChildRef → List Json → Prop
  | here {c : Option Criteria} {m child : Steward ρ} {s u : σ} {link : ChildRef} {keys : List Json}
    (enters : Enters b c m s link keys child u) : Descends c m s link keys
  | deeper {c : Option Criteria} {m child : Steward ρ} {s u : σ} {link link' : ChildRef}
    {keys keys' : List Json} (enters : Enters b c m s link keys child u)
    (descends : Descends (some (belongingTo link keys)) child u link' keys') :
    Descends c m s link' keys'

/-- The criteria of a removal and of all the removals below it are within the limit. -/
def Fits (limit : Nat) (c : Option Criteria) (m : Steward ρ) (s : σ) : Prop :=
  Criteria.Within limit c ∧ ∀ link keys, Descends b c m s link keys →
    Criteria.Within limit (some (belongingTo link keys))

variable {b} {limit : Nat} {c : Option Criteria} {m : Steward ρ} {s : σ}

theorem fits_iff : Fits b limit c m s ↔ Criteria.Within limit c ∧
    ∀ link keys child u, Enters b c m s link keys child u →
      Fits b limit (some (belongingTo link keys)) child u := by
  refine and_congr_right fun _ => ⟨fun h link keys child u henters => ?_, fun h link keys hd => ?_⟩
  · exact ⟨h link keys (.here henters),
      fun link' keys' hbelow => h link' keys' (.deeper henters hbelow)⟩
  · cases hd with
    | here henters => exact (h _ _ _ _ henters).1
    | deeper henters hbelow => exact (h _ _ _ _ henters).2 link keys hbelow

theorem removeBelow_cons_eq (keys : List Json) (below : ChildRef × Steward ρ)
    (rest : List (ChildRef × Steward ρ)) :
    removeBelow b keys (below :: rest) =
      removeBelow b keys [below] >>= fun _ => removeBelow b keys rest := by
  obtain ⟨link, child⟩ := below
  rw [removeBelow, removeBelow, removeBelow]
  split
  · rw [bind_assoc]
    exact bind_congr fun _ => rfl
  · rfl

theorem Turn.any_cascades {keys : List Json} {children : List (ChildRef × Steward ρ)} {s u : σ}
    {link : ChildRef} {child : Steward ρ} (h : Turn b keys children s link child u) :
    children.any (·.1.cascades) = true := by
  induction h with
  | first cascades => rw [List.any_cons, cascades, Bool.true_or]
  | later _ _ ih => rw [List.any_cons, ih, Bool.or_true]

end Descent

section Sending

variable {server : Server ω} {limit : Nat} {c : Option Criteria} {s : TableStore}
  {g : Gateway (ω × List Sent)}

/-- The windows behind one send nothing that it does not. -/
theorem sends_keysFrom_succ {windows : Nat} (offset : Nat)
    (hrest : ∀ offset u, ∃ rest, Sends limit rest u
      (keysFrom (Gateway.recording server) s c windows offset) ∧
        (Criteria.Within limit c → rest)) :
    Sends limit (Criteria.Within limit c) g
      (keysFrom (Gateway.recording server) s c (windows + 1) offset) := by
  rw [keysFrom]
  refine (TableStore.sends_query _).bind_of_imp fun page u _ => ?_
  simp only []
  split
  · exact ⟨True, .nothing rfl, fun _ => trivial⟩
  · obtain ⟨rest, hsends, himp⟩ := hrest (offset + Window.largestSize) u
    exact ⟨rest, hsends.bind_nothing fun _ _ => rfl, himp⟩

/-- However many windows the keys are read in, the criteria are the same. -/
theorem sends_keysFrom (windows offset : Nat) :
    Sends limit (Criteria.Within limit c) g
      (keysFrom (Gateway.recording server) s c (windows + 1) offset) := by
  induction windows generalizing offset g with
  | zero => exact sends_keysFrom_succ offset fun _ _ => ⟨True, .nothing rfl, fun _ => trivial⟩
  | succ windows ih => exact sends_keysFrom_succ offset fun offset _ => ⟨_, ih offset, id⟩

theorem sends_selectedKeys :
    Sends limit (Criteria.Within limit c) g
      (selectedKeys (Gateway.recording server) s c) :=
  sends_keysFrom _ 0

/-- A removal from the children fits if it does at each child's turn. -/
def TurnsFit (server : Server ω) (limit : Nat) (keys : List Json)
    (children : List (ChildRef × Steward TableStore)) (g : Gateway (ω × List Sent)) : Prop :=
  ∀ link child u, Turn (Gateway.recording server) keys children g link child u →
    Fits (Gateway.recording server) limit (some (belongingTo link keys)) child u

mutual

theorem sends_remove (m : Steward TableStore) (c : Option Criteria)
    (g : Gateway (ω × List Sent)) :
    Sends limit (Fits (Gateway.recording server) limit c m g) g
      (m.remove (Gateway.recording server) c) := by
  match m with
  | .mk r store parent children =>
      have hown (u : Gateway (ω × List Sent)) : Sends limit (Criteria.Within limit c) u
          ((Gateway.recording server).remove store c) := TableStore.sends_remove
      rw [remove]
      split
      · refine (sends_selectedKeys.bind
          (fun keys u => keys ≠ [] → TurnsFit server limit keys children u) ?_).congr ?_
        · intro keys u _
          split
          · next hsome =>
              have hne : keys ≠ [] := by simpa using hsome
              refine ⟨_, (sends_removeBelow keys children u).bind
                (fun _ _ => Criteria.Within limit c) fun _ v _ => ⟨_, hown v, fun _ => .rfl⟩,
                fun hwithin => ?_⟩
              exact ⟨fun h _ => h.1, fun h => ⟨h hne, fun _ _ _ => hwithin⟩⟩
          · next hnone =>
              have hnil : keys = [] := by simpa using hnone
              exact ⟨_, hown u, fun hwithin => iff_of_true hwithin fun hne => absurd hnil hne⟩
        · rw [fits_iff]
          refine and_congr_right fun _ => ⟨?_, ?_⟩
          · rintro h link keys child u ⟨hne, t, hkeys, hturn⟩
            exact h keys t hkeys hne link child u hturn
          · intro h keys t hkeys hne link child u hturn
            exact h link keys child u ⟨hne, t, hkeys, hturn⟩
      · next hnone =>
          refine (hown g).congr ?_
          rw [fits_iff]
          refine (and_iff_left ?_).symm
          rintro link keys child u ⟨-, t, -, hturn⟩
          exact absurd hturn.any_cascades hnone

theorem sends_removeBelow (keys : List Json) (children : List (ChildRef × Steward TableStore))
    (g : Gateway (ω × List Sent)) :
    Sends limit (TurnsFit server limit keys children g) g
      (removeBelow (Gateway.recording server) keys children) := by
  match children with
  | [] => exact (Sends.nothing rfl).congr (iff_of_true trivial nofun)
  | (link, child) :: rest =>
      have hfirst : Sends limit (link.cascades = true → Fits (Gateway.recording server) limit
          (some (belongingTo link keys)) child g) g
          (removeBelow (Gateway.recording server) keys [(link, child)]) := by
        rw [removeBelow]
        split
        · next hcascades =>
          refine ((sends_remove child _ g).bind_nothing fun _ _ => rfl).congr ?_
          exact ⟨fun h _ => h, fun h => h hcascades⟩
        · next hnot => exact (Sends.nothing rfl).congr (iff_of_true trivial fun h => absurd h hnot)
      rw [removeBelow_cons_eq]
      refine (hfirst.bind (fun _ u => TurnsFit server limit keys rest u) fun _ u _ =>
        ⟨_, sends_removeBelow keys rest u, fun _ => .rfl⟩).congr ⟨?_, ?_⟩
      · rintro ⟨hchild, hrest⟩ link' child' u hturn
        cases hturn with
        | first cascades => exact hchild cascades
        | later done turn => exact hrest _ _ done _ _ _ turn
      · intro h
        exact ⟨fun hcascades => h _ _ _ (.first hcascades),
          fun _ u hdone link' child' v hturn => h _ _ _ (.later hdone hturn)⟩

end

theorem field_flat {link : ChildRef} {keys : List Json} {w : Sql.Condition}
    (h : Criteria.condition (some (belongingTo link keys)) = .ok w) :
    Text.has link.field '.' = false := by
  obtain ⟨_, -, hlower⟩ := bind_eq_ok.mp h
  rw [belongingTo, Criteria.lowerCondition] at hlower
  obtain ⟨_, -, htest⟩ := bind_eq_ok.mp hlower
  split at htest
  · unfold Criteria.nestedCondition at htest
    split at htest
    · cases htest
    · split at htest <;> cases htest
  · next hflat => exact Bool.eq_false_iff.mpr hflat

/-- In a list of keys that a store accepts, each key but null is a value. -/
theorem within_belongingTo {link : ChildRef} {keys : List Json} :
    Criteria.Within limit (some (belongingTo link keys)) ↔
      ∀ w, Criteria.condition (some (belongingTo link keys)) = .ok w →
        (keys.filter fun key => !key.isNull).length ≤ limit := by
  refine forall_congr' fun w => forall_congr' fun hw => ?_
  have hbound : Criteria.boundBy (some (belongingTo link keys)) =
      (keys.filter fun key => !key.isNull).map fun key => (key, some link.field) := by
    rw [Criteria.boundBy, belongingTo, Criteria.bound, Criteria.boundOfCompare, field_flat hw]
    rfl
  rw [hbound, List.length_map]

end Sending

/-- All that a removal sends keeps within a limit exactly if its own criteria have no more values
than that, and no more keys are read on any level on which records below are looked for by them.
For there is one statement for all the keys of a level, with a parameter for each of them. -/
theorem removal_within_iff (server : Server ω) (m : Steward TableStore) (c : Option Criteria)
    (limit : Nat) (g : Gateway (ω × List Sent)) :
    let b := Gateway.recording server
    ∃ sent, ((m.remove b c).outcome g).2.world.2 = g.world.2 ++ sent ∧
      ((∀ what ∈ sent, what.width ≤ limit) ↔
        (∀ w, Criteria.condition c = .ok w → (Criteria.boundBy c).length ≤ limit) ∧
        ∀ link keys w, Descends b c m g link keys →
          Criteria.condition (some (belongingTo link keys)) = .ok w →
            (keys.filter fun key => !key.isNull).length ≤ limit) := by
  intro b
  refine (sends_remove m c g).congr (and_congr_right fun _ => ?_)
  refine forall_congr' fun link => forall_congr' fun keys => ?_
  rw [within_belongingTo]
  exact ⟨fun h w hd => h hd w, fun h hd w => h w hd⟩

/-! ## Keys of a table -/

section Keys

variable {v : Values α} (content : Sql.Table → List (List Cell)) (arrangement : v.Arrangement ω)
  (s : TableStore) {c : Option Criteria} {w : Sql.Condition} (hc : Criteria.condition c = .ok w)

include hc

theorem outcome_query_recorded (o : Paging) (g : Gateway (ω × List Sent)) :
    ((Gateway.recording (v.server content arrangement)).query s c o).outcome g =
      (.ok ((o.window.cut (arrangement.arrange g.world.1 s.table
          (Sql.orderOf o.sort s.keys.primaryKey)
          ((content s.table).filter (s.selects v w)))).map (recordOfRow (v.columns s.table))),
        { g with world := (g.world.1, g.world.2 ++
          [.statement (s.selection w o).text (s.parameters (s.selection w o))]) }) := by
  refine (s.outcome_query _ hc o).trans ?_
  simp only [Server.recorded, s.answer_selection v _ _ hc]
  rfl

/-- From a server with tables the keys of all rows that match are read, in the server's order, if
the offsets suffice. -/
theorem keysFrom_recorded {listed : List (List Cell)} {windows offset : Nat}
    (hstart : offset ≤ listed.length)
    (hbound : listed.length < offset + windows * Window.largestSize)
    {g : Gateway (ω × List Sent)}
    (hlisted : arrangement.arrange g.world.1 s.table (Sql.orderOf [] s.keys.primaryKey)
      ((content s.table).filter (s.selects v w)) = listed) :
    ∃ u, (keysFrom (Gateway.recording (v.server content arrangement)) s c windows offset).outcome
      g = (.ok (((listed.drop offset).map (recordOfRow (v.columns s.table))).filterMap
        (·.get? s.keys.primaryKey)), u) := by
  induction windows generalizing offset g with
  | zero => omega
  | succ windows ih =>
      have hquery := outcome_query_recorded content arrangement s hc
        { limit := some Window.largestSize, offset := some offset } g
      have hcut : Window.cut ⟨Window.largestSize, offset⟩ listed =
          (listed.drop offset).take Window.largestSize := rfl
      rw [window_page, hlisted, hcut] at hquery
      rw [keysFrom, Attempt.outcome_bind, hquery]
      simp only []
      split
      · next hlast =>
          rw [List.length_map, List.length_take, List.length_drop] at hlast
          rw [List.take_of_length_le (by rw [List.length_drop]; omega)]
          exact ⟨_, rfl⟩
      · next hfull =>
          rw [List.length_map, List.length_take, List.length_drop] at hfull
          rw [Nat.succ_mul] at hbound
          have hnext : offset + Window.largestSize ≤ listed.length := by
            have hpositive : 0 < Window.largestSize := by decide
            omega
          obtain ⟨u, hrest⟩ := ih (g := { g with world := (g.world.1, g.world.2 ++ _) }) hnext
            (by omega) hlisted
          refine ⟨u, ?_⟩
          have hsplit : listed.drop offset = (listed.drop offset).take Window.largestSize ++
              listed.drop (offset + Window.largestSize) := by
            rw [← List.drop_drop, List.take_append_drop]
          conv_rhs => rw [hsplit, List.map_append, List.filterMap_append]
          rw [Attempt.outcome_bind, hrest]
          rfl

/-- Where more rows match than the limit, a removal that goes on to a child by their keys sends
something that is wider. -/
theorem exists_wider {limit : Nat} (r : Resource) (parent : Option (ParentRef TableStore))
    {link : ChildRef} (child : Steward TableStore) (rest : List (ChildRef × Steward TableStore))
    (hfew : ((content s.table).filter (s.selects v w)).length < windowsOfRange * Window.largestSize)
    (hkeys : ∀ row ∈ (content s.table).filter (s.selects v w), ∃ key,
      (recordOfRow (v.columns s.table) row).get? s.keys.primaryKey = some key ∧ key.isNull = false)
    (hcascades : link.cascades = true)
    (haccepted : ∀ keys, ∃ w', Criteria.condition (some (belongingTo link keys)) = .ok w')
    (hmany : limit < ((content s.table).filter (s.selects v w)).length)
    (g : Gateway (ω × List Sent)) :
    ∃ what ∈ (((mk r s parent ((link, child) :: rest)).remove
      (Gateway.recording (v.server content arrangement)) c).outcome g).2.world.2,
        limit < what.width := by
  obtain ⟨listed, hlisted⟩ : ∃ listed, arrangement.arrange g.world.1 s.table
      (Sql.orderOf [] s.keys.primaryKey) ((content s.table).filter (s.selects v w)) = listed :=
    ⟨_, rfl⟩
  have hperm : listed.Perm ((content s.table).filter (s.selects v w)) :=
    hlisted ▸ (arrangement.arranged ..).perm
  rw [← hperm.length_eq] at hfew hmany
  obtain ⟨u, hread⟩ := keysFrom_recorded content arrangement s hc (Nat.zero_le _)
    (by rwa [Nat.zero_add]) hlisted
  rw [List.drop_zero, List.filterMap_map] at hread
  generalize hcollected : listed.filterMap _ = keys at hread
  have hcount : (keys.filter fun key => !key.isNull).length = listed.length := by
    have hsome : ∀ key ∈ keys, (!key.isNull) = true := by
      intro key hkey
      rw [← hcollected] at hkey
      obtain ⟨row, hrow, hget⟩ := List.mem_filterMap.mp hkey
      obtain ⟨key', hheld, hnull⟩ := hkeys row (hperm.mem_iff.mp hrow)
      cases hget.symm.trans hheld
      rw [hnull]
      rfl
    rw [List.filter_eq_self.mpr hsome, ← hcollected, List.filterMap_length_eq_length]
    intro row hrow
    obtain ⟨key, hheld, -⟩ := hkeys row (hperm.mem_iff.mp hrow)
    exact Option.isSome_iff_exists.mpr ⟨key, hheld⟩
  have hdescends : Descends (Gateway.recording (v.server content arrangement)) c
      (mk r s parent ((link, child) :: rest)) g link keys := by
    refine .here ⟨?_, u, hread, .first hcascades⟩
    rintro rfl
    rw [← hcount] at hmany
    cases hmany
  obtain ⟨sent, hlog, hfits⟩ := sends_remove (mk r s parent ((link, child) :: rest)) c g
  by_contra hnone
  have hall : ∀ what ∈ sent, what.width ≤ limit := by
    intro what hwhat
    refine Nat.le_of_not_lt fun hwide => hnone ⟨what, ?_, hwide⟩
    rw [hlog]
    exact List.mem_append_right _ hwhat
  obtain ⟨w', hw'⟩ := haccepted keys
  have hwithin := within_belongingTo.mp ((hfits.mp hall).2 link keys hdescends) w' hw'
  omega

end Keys

def entryTable : TableStore :=
  { table := ⟨"public", "entries"⟩, keys := { primaryKey := "uuid", assigns := false },
    columns := [("uuid", .text), ("account", .text)] }

def entryLink : ChildRef := ⟨"entries", "account", true⟩

def accountResource : Resource := { (default : Resource) with name := "accounts" }

def entrySteward : Steward TableStore :=
  .mk { (default : Resource) with name := "entries", parent := some "accounts" } entryTable
    (some ⟨"accounts", "account", accountTable⟩) []

def accountSteward : Steward TableStore :=
  .mk accountResource accountTable none [(entryLink, entrySteward)]

def numberedAccounts (count : Nat) : List (List Cell) :=
  (List.range count).map fun n => accountRow (toString n) "open"

theorem numberedAccounts_distinct (count : Nat) :
    (numberedAccounts count).Pairwise fun row other => accountValues.order
      (accountValues.held accountTable.table row "uuid")
      (accountValues.held accountTable.table other "uuid") ≠ .eq := by
  refine List.pairwise_map.mpr (List.nodup_range.imp fun {m n} hne heq => hne ?_)
  have horder : compare (toString m) (toString n) = .eq := heq
  have hread := congrArg (fun s : String => Text.readDigits? s.toList)
    (Std.compare_eq_iff_eq.mp horder)
  simp only [Text.readDigits?_toString] at hread
  exact Option.some.inj hread

def accountsBackend (count : Nat) : Backend (Gateway (Unit × List Sent)) TableStore :=
  Gateway.recording (accountValues.server (fun _ => numberedAccounts count) (Values.sorting _))

theorem exists_wider_accounts {limit count : Nat} (hmany : limit < count)
    (hfew : count < windowsOfRange * Window.largestSize) (g : Gateway (Unit × List Sent)) :
    ∃ what ∈ ((accountSteward.remove (accountsBackend count) none).outcome g).2.world.2,
      limit < what.width := by
  have hall : Criteria.condition none = .ok .all := rfl
  have hmatching : (numberedAccounts count).filter (accountTable.selects accountValues .all) =
      numberedAccounts count := List.filter_eq_self.mpr fun _ _ => rfl
  have hlength : (numberedAccounts count).length = count := by
    rw [numberedAccounts, List.length_map, List.length_range]
  have haccepted (keys : List Json) :
      ∃ w, Criteria.condition (some (belongingTo entryLink keys)) = .ok w := ⟨_, rfl⟩
  have hkeys : ∀ row ∈ (numberedAccounts count).filter (accountTable.selects accountValues .all),
      ∃ key, (recordOfRow (accountValues.columns accountTable.table) row).get?
        accountTable.keys.primaryKey = some key ∧ key.isNull = false := by
    intro row hrow
    rw [hmatching] at hrow
    obtain ⟨n, -, rfl⟩ := List.mem_map.mp hrow
    have hdistinct : ["uuid", "state"].Nodup := by decide
    exact ⟨.string (toString n), Record.get?_ofList hdistinct (.head _), rfl⟩
  rw [← hlength, ← hmatching] at hfew hmany
  rw [accountSteward, accountsBackend]
  exact exists_wider (fun _ => numberedAccounts count) (Values.sorting _) accountTable hall
    accountResource none entrySteward [] hfew hkeys rfl haccepted hmany g

/-- Where a table has one account more than a statement has places for parameters, a removal of all
accounts sends a statement with too many of them. -/
theorem removal_too_wide :
    ((numberedAccounts 65536).Pairwise fun row other => accountValues.order
      (accountValues.held accountTable.table row "uuid")
      (accountValues.held accountTable.table other "uuid") ≠ .eq) ∧
    ∃ what ∈ ((accountSteward.remove (accountsBackend 65536) none).outcome
      ⟨((), []), ⟨fun _ => 0, fun _ => ⟨0⟩, 0, 0⟩⟩).2.world.2, Sent.greatestWidth < what.width := by
  have hmany : Sent.greatestWidth < 65536 := by decide
  have hfew : 65536 < windowsOfRange * Window.largestSize := by decide
  exact ⟨numberedAccounts_distinct 65536, exists_wider_accounts hmany hfew _⟩

end Steward

end Grove
