import Grove.Proofs.Document.Key
import Grove.Proofs.Json.Ordered
import Grove.Proofs.Steward.Keys

/-!
# Stamps that tell the truth

The stamps of a record are fields like any other, and whoever adds or changes a record can
write something into them. What a steward does about it is different each time: an addition
writes over both, a change writes over one and leaves the other out, a refreshment is a
change of the one alone, and a failure must not leave a trace of a time that was read.

What the stamps should say is known from the course of events. A `Deed` remembers which row
was stored, or which rows were changed, and the time that the clock told then, so the time
at which a row was last changed is that of the last deed that concerns it. What any duty of
a steward does to the collections is one of three things (`Duty.effect`), and each of them
keeps the stamps in agreement with the deeds (`Effect.dated`).

Where records have no stamps, nothing but the caller sets a field other than the key.
-/

namespace Grove

/-- The resource has stamps, and they are fields of their own. -/
structure Resource.Stamped (r : Resource) (stamps : Stamps) : Prop where
  timestamps : r.timestamps = some stamps
  apart : stamps.created ≠ stamps.modified
  created : stamps.created ≠ r.keys.primaryKey
  modified : stamps.modified ≠ r.keys.primaryKey

def Resource.IsStamp (r : Resource) (field : String) : Prop :=
  ∃ stamps, r.timestamps = some stamps ∧ (field = stamps.created ∨ field = stamps.modified)

/-- What is stored for a record that is added at a time: the stamps say the time, and all else
is as it was given, except that a key is drawn where there is none. -/
structure Resource.Stores (r : Resource) (time : String) (record stored : Record) : Prop where
  given : ∀ field, field ≠ r.keys.primaryKey → ¬ r.IsStamp field →
    stored.get? field = record.get? field
  key : ¬ r.IsStamp r.keys.primaryKey → (r.keys.keyOf record).isNull = false →
    stored.get? r.keys.primaryKey = record.get? r.keys.primaryKey
  stamped : ∀ field, r.IsStamp field → stored.get? field = some (.string time)

theorem Resource.Stores.get?_of_given {r : Resource} {time : String} {record stored : Record}
    (h : r.Stores time record stored) {field : String} (hfield : ¬ r.IsStamp field) {value : Json}
    (hgiven : record.get? field = some value) (hvalue : value.isNull = false) :
    stored.get? field = some value := by
  by_cases hkey : field = r.keys.primaryKey
  · subst hkey
    rw [h.key hfield (by rw [KeyPolicy.keyOf, hgiven]; exact hvalue), hgiven]
  · rw [h.given field hkey hfield, hgiven]

/-- What is remembered of what was done to the records of a resource: the rows, by their
numbers, and the time that the clock told. -/
inductive Deed where
  | stored (resource : String) (number : Nat) (time : String)
  | changed (resource : String) (numbers : List Nat) (time : String)

namespace Deed

/-- The time of the deed, if it is the one by which the row was stored. -/
def storedAt? (name : String) (number : Nat) : Deed → Option String
  | stored resource n time => if resource = name ∧ n = number then some time else none
  | changed _ _ _ => none

/-- The time of the deed, if it has stored or changed the row. -/
def changedAt? (name : String) (number : Nat) : Deed → Option String
  | stored resource n time => if resource = name ∧ n = number then some time else none
  | changed resource ns time => if resource = name ∧ number ∈ ns then some time else none

end Deed

/-- The stamps of a row say when it was stored and when it was last stored or changed. The
deeds are listed from the last one back. -/
def Dated (deeds : List Deed) (name : String) (stamps : Stamps) (row : Nat × Record) : Prop :=
  ∃ stored changed, deeds.findSome? (Deed.storedAt? name row.1) = some stored ∧
    deeds.findSome? (Deed.changedAt? name row.1) = some changed ∧
    row.2.get? stamps.created = some (.string stored) ∧
    row.2.get? stamps.modified = some (.string changed)

/-- What can be asked of a steward. Changes have their fields in order, like any record that
was read. -/
inductive Duty where
  | add (record : Record)
  | find (c : Option Criteria)
  | findByKey (key : Json)
  | query (c : Option Criteria) (o : Paging)
  | count (c : Option Criteria)
  | attach (record : Record) (names : List String)
  | update (c : Option Criteria) (changes : Record) (ordered : changes.Ordered)
  | refresh (c : Option Criteria)
  | remove (c : Option Criteria)
  | removeByKey (key : Json)

namespace Duty

def perform {σ ρ : Type} (b : Backend σ ρ) (m : Steward ρ) : Duty → Attempt σ Reply
  | add record => Reply.record <$> m.add b record
  | find c => Reply.found <$> m.find b c
  | findByKey key => Reply.found <$> m.findByKey b key
  | query c o => Reply.records <$> m.query b c o
  | count c => Reply.number <$> m.count b c
  | attach record names => Reply.record <$> m.attach b record names
  | update c changes _ => Reply.number <$> m.update b c changes
  | refresh c => Reply.number <$> m.refresh b c
  | remove c => Reply.number <$> m.remove b c
  | removeByKey key => Reply.number <$> m.removeByKey b key

/-- What there is to remember of a duty that is performed in an archive: nothing if it fails. -/
def deeds (m : Steward DocumentStore) (a : Archive) (duty : Duty) : List Deed :=
  let succeeds := ((duty.perform Archive.backend m).outcome a).1.isOk
  let held := a.collection m.resource.name
  match duty with
  | add _ => if succeeds then [.stored m.resource.name held.next a.supply.time] else []
  | update c _ _ => if succeeds then changed held c else []
  | refresh c => if succeeds && m.resource.timestamps.isSome then changed held c else []
  | _ => []
where
  changed (held : Collection) (c : Option Criteria) : List Deed :=
    match Matcher.ofCriteria c with
    | .ok matcher =>
      let rows := held.rows.filter fun row => matcher.accepts row.2
      [.changed m.resource.name (rows.map (·.1)) a.supply.time]
    | .error _ => []

/-- The caller has given the field this value, or none. -/
inductive Gives : Duty → String → Option Json → Prop
  | add {record : Record} {field : String} : Gives (.add record) field (record.get? field)
  | update {c : Option Criteria} {changes : Record} {ordered : changes.Ordered} {field : String}
      {value : Json} (named : changes.get? field = some value) :
      Gives (.update c changes ordered) field (some value)

end Duty

/-- The archives that come about when stewards of a tree are asked for things, from one
without records on, and what there is to remember. -/
inductive Course (t : Forest) : List Deed → Archive → Prop
  | fresh {a : Archive} (empty : ∀ name, (a.collection name).rows = []) : Course t [] a
  | performed {history : List Deed} {a : Archive} (h : Course t history a)
      {m : Steward DocumentStore} (hm : m.Complete DocumentStore.ofResource t) (duty : Duty) :
      Course t (duty.deeds m a ++ history) ((duty.perform Archive.backend m).outcome a).2
  /-- The database begins to refuse what is written, or takes it again. -/
  | refusing {history : List Deed} {a : Archive} (h : Course t history a) {d : Database}
      (hd : a.database = some d) (reason : Option String) :
      Course t history { a with database := some { d with refusal := reason } }

/-! ## What leaves the rows as they are, or takes some away -/

namespace Steward

section Calls

variable {σ ρ : Type} {b : Backend σ ρ} {m : Steward ρ} {R : σ → σ → Prop}

theorem attach_of_reads (hfind : ∀ s c, (b.find s c).Respects R fun _ => True)
    (hquery : ∀ s c o, (b.query s c o).Respects R fun _ => True) (names : List String)
    (record : Record) : (m.attach b record names).Respects R fun _ => True := by
  induction names generalizing record with
  | nil => exact Attempt.respects_pure trivial
  | cons name names ih =>
      have hrelated : (m.related b record name).Respects R fun _ => True := by
        rw [related]
        split
        · rw [parentRecord]
          split
          · exact Attempt.respects_pure trivial
          · refine (hfind _ _).bind fun found _ => ?_
            cases found <;> exact Attempt.respects_pure trivial
        · split
          · exact (hquery _ _ _).bind fun _ _ => Attempt.respects_pure trivial
          · exact Attempt.respects_throw
      exact hrelated.bind fun value _ => ih _

theorem query_of_reads (hfind : ∀ s c, (b.find s c).Respects R fun _ => True)
    (hquery : ∀ s c o, (b.query s c o).Respects R fun _ => True) (c : Option Criteria)
    (o : Paging) : (m.query b c o).Respects R fun _ => True := by
  refine (hquery _ _ _).bind fun records _ => ?_
  exact (Attempt.Respects.mapM fun record _ => attach_of_reads hfind hquery o.fetch record).mono
    fun _ _ => trivial

theorem selectedKeys_of_reads (hquery : ∀ s c o, (b.query s c o).Respects R fun _ => True)
    (s : ρ) (c : Option Criteria) : (selectedKeys b s c).Respects R fun _ => True := by
  rw [selectedKeys]
  generalize windowsOfRange = windows, 0 = offset
  induction windows generalizing offset with
  | zero => exact Attempt.respects_throw
  | succ windows ih =>
      refine (hquery _ _ _).bind fun page _ => ?_
      split
      · exact Attempt.respects_pure trivial
      · exact (ih _).bind fun _ _ => Attempt.respects_pure trivial

mutual

theorem remove_of_calls (hquery : ∀ s c o, (b.query s c o).Respects R fun _ => True)
    (hremove : ∀ s c, (b.remove s c).Respects R fun _ => True) (m : Steward ρ)
    (c : Option Criteria) : (m.remove b c).Respects R fun _ => True := by
  match m with
  | .mk r store parent children =>
      rw [remove]
      split
      · refine (selectedKeys_of_reads hquery store c).bind fun keys _ => ?_
        split
        · exact (removeBelow_of_calls hquery hremove children keys).bind fun _ _ => hremove _ _
        · exact hremove _ _
      · exact hremove _ _

theorem removeBelow_of_calls (hquery : ∀ s c o, (b.query s c o).Respects R fun _ => True)
    (hremove : ∀ s c, (b.remove s c).Respects R fun _ => True)
    (children : List (ChildRef × Steward ρ)) (keys : List Json) :
    (removeBelow b keys children).Respects R fun _ => True := by
  match children with
  | [] => exact Attempt.respects_pure trivial
  | (link, child) :: rest =>
      rw [removeBelow]
      split
      · exact (remove_of_calls hquery hremove child _).bind fun _ _ =>
          removeBelow_of_calls hquery hremove rest keys
      · exact removeBelow_of_calls hquery hremove rest keys

end

end Calls

end Steward

/-- No row is there that was not there before, and numbers are given as before. -/
def Archive.Shrunk (a b : Archive) : Prop :=
  ∀ name, (b.collection name).next = (a.collection name).next ∧
    (b.collection name).rows.Sublist (a.collection name).rows

theorem Archive.Shrunk.refl (a : Archive) : a.Shrunk a := fun _ => ⟨rfl, List.Sublist.refl _⟩

theorem Archive.Shrunk.trans {a b d : Archive} (h : a.Shrunk b) (h' : b.Shrunk d) : a.Shrunk d :=
  fun name => ⟨(h' name).1.trans (h name).1, (h' name).2.trans (h name).2⟩

namespace DocumentStore

variable {s : DocumentStore} {a b : Archive}

theorem shrunk_of_remove (c : Option Criteria) : a.Shrunk ((s.remove c).outcome a).2 := by
  obtain ⟨f, hfailed⟩ | ⟨matcher, b, -, hdone, -, hown, hothers, -⟩ := s.remove_cases a c
  · rw [hfailed]
    exact .refl a
  · rw [hdone]
    intro name
    by_cases hname : name = s.collection
    · have hcollection := congrArg Holding.collection hown
      rw [hname, show b.collection s.collection = _ from hcollection]
      exact ⟨rfl, List.filter_sublist⟩
    · have hcollection := congrArg Holding.collection (hothers name hname)
      rw [show b.collection name = a.collection name from hcollection]
      exact ⟨rfl, List.Sublist.refl _⟩

theorem updated_of_update {c : Option Criteria} {changes : Record} {n : Nat}
    (h : (s.update c changes).outcome a = (.ok n, b)) :
    ∃ matcher, Matcher.ofCriteria c = .ok matcher ∧ b.collection s.collection =
      (a.collection s.collection).update matcher (s.keys.withoutKey changes) := by
  rw [outcome_update] at h
  cases hm : Matcher.ofCriteria c with
  | error f =>
      rw [hm] at h
      cases h
  | ok matcher =>
      rw [hm] at h
      obtain ⟨reason, -, -, hrefused⟩ | ⟨b', -, hdone, hrewritten⟩ :=
        s.rewrite_cases a ((a.collection s.collection).changed matcher (s.keys.withoutKey changes))
          [] ((a.collection s.collection).update matcher (s.keys.withoutKey changes))
          ((a.collection s.collection).matching matcher).length
      · cases hrefused.symm.trans h
      · cases hdone.symm.trans h
        exact ⟨matcher, rfl, congrArg Holding.collection hrewritten.own⟩

/-- A record is stored with the fields that it came with, except for its key. -/
theorem get?_of_add {record stored : Record} (h : (s.add record).outcome a = (.ok stored, b))
    {field : String} (hfield : field ≠ s.keys.primaryKey) :
    stored.get? field = record.get? field := by
  rw [add_eq, Attempt.outcome_bind, outcome_complete] at h
  by_cases hkey : (s.keys.keyOf record).isNull = false
  · rw [if_pos hkey] at h
    rw [(insertNew_eq_ok h).1]
  · rw [if_neg hkey] at h
    by_cases hassigns : s.keys.assigns = false
    · rw [if_pos hassigns] at h
      cases h
    · rw [if_neg hassigns] at h
      rw [(insertNew_eq_ok h).1, Record.get?_insert, if_neg hfield]

end DocumentStore

namespace Steward

variable {m : Steward DocumentStore} {a : Archive}

theorem outcome_stamp (m : Steward DocumentStore) (a : Archive) (record : Record) :
    ∃ stamped supply,
      (m.stamp Archive.backend record).outcome a = (.ok stamped, { a with supply }) ∧
      (∀ field, m.resource.IsStamp field →
        stamped.get? field = some (.string a.supply.time)) ∧
      ∀ field, ¬ m.resource.IsStamp field → stamped.get? field = record.get? field := by
  rw [stamp]
  cases hstamps : m.resource.timestamps with
  | none =>
      refine ⟨record, a.supply, rfl, fun field hfield => ?_, fun _ _ => rfl⟩
      obtain ⟨stamps, h, -⟩ := hfield
      cases hstamps.symm.trans h
  | some stamps =>
      refine ⟨_, a.supply.afterReading, rfl, fun field hfield => ?_, fun field hfield => ?_⟩
      · obtain ⟨stamps', h, hfield⟩ := hfield
        cases hstamps.symm.trans h
        rw [Record.get?_insert, Record.get?_insert]
        obtain rfl | rfl := hfield
        · rw [if_pos rfl, ite_self]
        · rw [if_pos rfl]
      · obtain ⟨hcreated, hmodified⟩ := not_or.mp fun h => hfield ⟨stamps, hstamps, h⟩
        rw [Record.get?_insert, if_neg hmodified, Record.get?_insert, if_neg hcreated]

theorem outcome_add {t : Forest} (hm : m.Complete DocumentStore.ofResource t) (a : Archive)
    (record : Record) :
    ∃ stamped supply, (m.add Archive.backend record).outcome a =
        ((DocumentStore.ofResource m.resource).add stamped).outcome { a with supply } ∧
      (∀ field, m.resource.IsStamp field →
        stamped.get? field = some (.string a.supply.time)) ∧
      ∀ field, ¬ m.resource.IsStamp field → stamped.get? field = record.get? field := by
  obtain ⟨stamped, supply, hstamp, hfields⟩ := m.outcome_stamp a record
  refine ⟨stamped, supply, ?_, hfields⟩
  rw [Steward.add, Attempt.outcome_bind, hstamp, hm.store_eq]
  rfl

/-- An addition fails and no collection is different, or it puts the record that is stored at
the end of the collection of its resource. -/
theorem add_cases {t : Forest} (hm : m.Complete DocumentStore.ofResource t) (a : Archive)
    (record : Record) :
    (∃ f b, (m.add Archive.backend record).outcome a = (.error f, b) ∧
      ∀ name, b.collection name = a.collection name) ∨
    ∃ stored b, (m.add Archive.backend record).outcome a = (.ok stored, b) ∧
      b.collection m.resource.name = (a.collection m.resource.name).push stored ∧
      (∀ other, other ≠ m.resource.name → b.collection other = a.collection other) ∧
      m.resource.Stores a.supply.time record stored := by
  obtain ⟨stamped, supply, hadd, hstamps, hgiven⟩ := outcome_add hm a record
  rw [hadd]
  rcases h : ((DocumentStore.ofResource m.resource).add stamped).outcome { a with supply } with
    ⟨f | stored, b⟩
  · refine .inl ⟨f, b, rfl, fun name => ?_⟩
    obtain rfl | ⟨-, -, rfl⟩ := DocumentStore.add_error h <;> rfl
  · refine .inr ⟨stored, b, rfl, (DocumentStore.pushed_of_add h).2.2.1, fun other hother => ?_, ?_⟩
    · have hholding := DocumentStore.add_others (s := .ofResource m.resource) hother
        (a := { a with supply }) stamped
      rw [h] at hholding
      exact congrArg Holding.collection hholding
    · have hkept := (DocumentStore.add_eq_ok h).2
      refine ⟨fun field hkey hfield => ?_, fun hkey hnull => ?_, fun field hfield => ?_⟩
      · rw [DocumentStore.get?_of_add h hkey, hgiven field hfield]
      · rw [KeyPolicy.keyOf] at hnull
        cases hheld : record.get? m.resource.keys.primaryKey with
        | none =>
            rw [hheld] at hnull
            cases hnull
        | some key =>
            rw [hheld] at hnull
            exact hkept _ key ((hgiven _ hkey).trans hheld) hnull
      · exact hkept field _ (hstamps field hfield) rfl

/-- An addition that succeeds has put the record at the end. -/
theorem added_of_add {t : Forest} (hm : m.Complete DocumentStore.ofResource t)
    {record stored : Record} {b : Archive}
    (h : (m.add Archive.backend record).outcome a = (.ok stored, b)) :
    b.collection m.resource.name = (a.collection m.resource.name).push stored ∧
      (∀ other, other ≠ m.resource.name → b.collection other = a.collection other) ∧
      m.resource.Stores a.supply.time record stored := by
  obtain ⟨f, u, hadd, -⟩ | ⟨stored', u, hadd, hadded⟩ := add_cases hm a record <;>
    cases hadd.symm.trans h
  exact hadded

theorem outcome_restamp (m : Steward DocumentStore) (a : Archive) {changes : Record}
    (hordered : changes.Ordered) :
    ∃ restamped supply,
      (m.restamp Archive.backend changes).outcome a = (.ok restamped, { a with supply }) ∧
      restamped.Ordered ∧
      (∀ stamps, m.resource.Stamped stamps → restamped.get? stamps.created = none ∧
        restamped.get? stamps.modified = some (.string a.supply.time)) ∧
      ∀ field, ¬ m.resource.IsStamp field → restamped.get? field = changes.get? field := by
  rw [restamp]
  cases hstamps : m.resource.timestamps with
  | none =>
      refine ⟨changes, a.supply, rfl, hordered, fun stamps h => ?_, fun _ _ => rfl⟩
      rw [h.timestamps] at hstamps
      cases hstamps
  | some stamps =>
      refine ⟨_, a.supply.afterReading, rfl, (hordered.erase _).insert _ _, fun stamps' h => ?_,
        fun field hfield => ?_⟩
      · rw [h.timestamps] at hstamps
        cases hstamps
        simp [h.apart]
      · obtain ⟨hcreated, hmodified⟩ := not_or.mp fun h => hfield ⟨stamps, hstamps, h⟩
        rw [Record.get?_insert, if_neg hmodified, Record.get?_erase, if_neg hcreated]

end Steward

/-! ## What a duty does -/

/-- What performing a duty has done to the collections, and what there is to remember. -/
inductive Effect (r : Resource) (duty : Duty) (a b : Archive) : List Deed → Prop
  | shrunk (h : a.Shrunk b) : Effect r duty a b []
  | added {stored : Record} (own : b.collection r.name = (a.collection r.name).push stored)
      (others : ∀ other, other ≠ r.name → b.collection other = a.collection other)
      (stamped : ∀ stamps, r.Stamped stamps →
        stored.get? stamps.created = some (.string a.supply.time) ∧
        stored.get? stamps.modified = some (.string a.supply.time))
      (given : ∀ field, field ≠ r.keys.primaryKey → ¬ r.IsStamp field →
        duty.Gives field (stored.get? field)) :
      Effect r duty a b [.stored r.name (a.collection r.name).next a.supply.time]
  | updated {matcher : Matcher} {changes : Record}
      (own : b.collection r.name = (a.collection r.name).update matcher changes)
      (others : ∀ other, other ≠ r.name → b.collection other = a.collection other)
      (ordered : changes.Ordered)
      (stamped : ∀ stamps, r.Stamped stamps → changes.get? stamps.created = none ∧
        changes.get? stamps.modified = some (.string a.supply.time))
      (given : ∀ field value, ¬ r.IsStamp field → changes.get? field = some value →
        duty.Gives field (some value)) :
      Effect r duty a b [.changed r.name ((a.collection r.name).doomed matcher) a.supply.time]

namespace Duty

variable {t : Forest} {m : Steward DocumentStore} {a : Archive}

theorem add_effect (hm : m.Complete DocumentStore.ofResource t) (record : Record) :
    Effect m.resource (add record) a (((add record).perform Archive.backend m).outcome a).2
      ((add record).deeds m a) := by
  rw [deeds, perform, Attempt.outcome_map]
  obtain ⟨f, b, hadd, hsame⟩ | ⟨stored, b, hadd, hown, hothers, hstores⟩ :=
    Steward.add_cases hm a record
  · rw [hadd]
    exact .shrunk fun name => hsame name ▸ ⟨rfl, List.Sublist.refl _⟩
  · rw [hadd]
    refine .added hown hothers (fun stamps hs => ?_) fun field hkey hfield => ?_
    · exact ⟨hstores.stamped _ ⟨stamps, hs.timestamps, .inl rfl⟩,
        hstores.stamped _ ⟨stamps, hs.timestamps, .inr rfl⟩⟩
    · rw [hstores.given field hkey hfield]
      exact .add

/-- Changing records and refreshing their stamps come to the same but for what the caller
gives. -/
theorem update_effect (hm : m.Complete DocumentStore.ofResource t) {c : Option Criteria}
    {changes : Record} (hordered : changes.Ordered) {duty : Duty}
    (hgives : ∀ field value, changes.get? field = some value → duty.Gives field (some value)) :
    Effect m.resource duty a ((m.update Archive.backend c changes).outcome a).2
      (if ((m.update Archive.backend c changes).outcome a).1.isOk then
        deeds.changed m a (a.collection m.resource.name) c else []) := by
  obtain ⟨restamped, supply, hstamp, hordered, hstamped, hgiven⟩ := m.outcome_restamp a hordered
  have hupdate : (m.update Archive.backend c changes).outcome a =
      ((DocumentStore.ofResource m.resource).update c restamped).outcome { a with supply } := by
    rw [Steward.update, Attempt.outcome_bind, hstamp, hm.store_eq]
    rfl
  rw [hupdate]
  rcases h : ((DocumentStore.ofResource m.resource).update c restamped).outcome { a with supply }
    with ⟨f | n, b⟩
  · obtain rfl := DocumentStore.update_error h
    exact .shrunk (.refl a)
  · obtain ⟨matcher, hmatcher, hown⟩ := DocumentStore.updated_of_update h
    have hothers : ∀ other, other ≠ m.resource.name → b.collection other = a.collection other :=
      fun other hother => by
        have hholding := DocumentStore.update_others (s := .ofResource m.resource) hother
          (a := { a with supply }) c restamped
        rw [h] at hholding
        exact congrArg Holding.collection hholding
    have hown : b.collection m.resource.name = (a.collection m.resource.name).update matcher
        (m.resource.keys.withoutKey restamped) := hown
    show Effect m.resource duty a b (deeds.changed m a (a.collection m.resource.name) c)
    rw [deeds.changed, hmatcher]
    refine .updated hown hothers (hordered.erase _) (fun stamps hs => ?_)
      fun field value hfield hvalue => ?_
    · rw [KeyPolicy.withoutKey, Record.get?_erase, Record.get?_erase]
      rw [if_neg hs.created, if_neg hs.modified]
      exact hstamped stamps hs
    · rw [KeyPolicy.withoutKey, Record.get?_erase] at hvalue
      split at hvalue
      · cases hvalue
      · exact hgives field value (hgiven field hfield ▸ hvalue)

theorem refresh_eq {stamps : Stamps} (h : m.resource.timestamps = some stamps)
    (c : Option Criteria) :
    m.refresh Archive.backend c = m.update Archive.backend c Record.empty := by
  rw [Steward.refresh, Steward.update, Steward.restamp, h]
  rfl

theorem isOk_outcome_map {α β : Type} (f : α → β) (x : Attempt Archive α) (a : Archive) :
    ((f <$> x).outcome a).1.isOk = (x.outcome a).1.isOk := by
  rw [Attempt.outcome_map]
  cases (x.outcome a).1 <;> rfl

inductive Reads : Duty → Prop
  | find (c : Option Criteria) : Reads (find c)
  | findByKey (key : Json) : Reads (findByKey key)
  | query (c : Option Criteria) (o : Paging) : Reads (query c o)
  | count (c : Option Criteria) : Reads (count c)
  | attach (record : Record) (names : List String) : Reads (attach record names)

theorem state_of_reads {duty : Duty} (h : duty.Reads) (m : Steward DocumentStore) (a : Archive) :
    ((duty.perform Archive.backend m).outcome a).2 = a := by
  have hfind : ∀ (s : DocumentStore) c, ((s.find c).Respects (fun u v => u = v ∧ u = a)
      fun _ => True) := fun s c => Attempt.respects_invariant.mpr fun u hu =>
    ⟨(congrArg Prod.snd (s.outcome_find u c)).trans hu, fun _ _ => trivial⟩
  have hquery : ∀ (s : DocumentStore) c o, ((s.query c o).Respects (fun u v => u = v ∧ u = a)
      fun _ => True) := fun s c o => Attempt.respects_invariant.mpr fun u hu =>
    ⟨(congrArg Prod.snd (s.outcome_query u c o)).trans hu, fun _ _ => trivial⟩
  have hstays : ∀ {α : Type} {x : Attempt Archive α},
      x.Respects (fun u v => u = v ∧ u = a) (fun _ => True) → (x.outcome a).2 = a :=
    fun hx => (Attempt.respects_invariant.mp hx a rfl).1
  cases h <;> rw [perform, Attempt.outcome_map]
  case find c => exact hstays (hfind m.store c)
  case findByKey key => exact hstays (hfind m.store _)
  case query c o => exact hstays (Steward.query_of_reads hfind hquery c o)
  case count c => exact congrArg Prod.snd (m.store.outcome_count a c)
  case attach record names => exact hstays (Steward.attach_of_reads hfind hquery names record)

theorem reads_effect {duty : Duty} (h : duty.Reads) :
    Effect m.resource duty a ((duty.perform Archive.backend m).outcome a).2 [] := by
  rw [state_of_reads h]
  exact .shrunk (.refl a)

theorem effect (hm : m.Complete DocumentStore.ofResource t) (duty : Duty) :
    Effect m.resource duty a ((duty.perform Archive.backend m).outcome a).2 (duty.deeds m a) := by
  have hremoves : ∀ c, a.Shrunk ((m.remove Archive.backend c).outcome a).2 := fun c => by
    refine (Attempt.respects_invariant.mp (Steward.remove_of_calls ?_ ?_ m c) a (.refl a)).1
    · exact fun s c o => Attempt.respects_invariant.mpr fun u hu =>
        ⟨(congrArg Prod.snd (s.outcome_query u c o)).symm ▸ hu, fun _ _ => trivial⟩
    · exact fun s c => Attempt.respects_invariant.mpr fun u hu =>
        ⟨hu.trans (s.shrunk_of_remove c), fun _ _ => trivial⟩
  cases duty with
  | add record => exact add_effect hm record
  | find c => exact reads_effect (.find c)
  | findByKey key => exact reads_effect (.findByKey key)
  | query c o => exact reads_effect (.query c o)
  | count c => exact reads_effect (.count c)
  | attach record names => exact reads_effect (.attach record names)
  | update c changes ordered =>
      rw [deeds, perform, isOk_outcome_map, Attempt.outcome_map]
      exact update_effect hm ordered fun _ _ => .update
  | refresh c =>
      rw [deeds, perform, isOk_outcome_map, Attempt.outcome_map]
      cases hstamps : m.resource.timestamps with
      | none =>
          rw [Option.isSome_none, Bool.and_false, Steward.refresh, hstamps]
          refine .shrunk ?_
          simp only []
          rw [show ((Archive.backend.count m.store c).outcome a).2 = a from
            congrArg Prod.snd (m.store.outcome_count a c)]
          exact .refl a
      | some stamps =>
          rw [Option.isSome_some, Bool.and_true, refresh_eq hstamps]
          exact update_effect hm Record.ordered_empty nofun
  | remove c =>
      rw [perform, Attempt.outcome_map]
      exact .shrunk (hremoves c)
  | removeByKey key =>
      rw [perform, Attempt.outcome_map]
      exact .shrunk (hremoves _)

end Duty

/-! ## What every effect keeps -/

theorem Collection.mem_rows_update {c : Collection} {matcher : Matcher} {changes : Record}
    {row : Nat × Record} (h : row ∈ (c.update matcher changes).rows) :
    ∃ old ∈ c.rows, old.1 = row.1 ∧
      ((matcher.accepts old.2 = true ∧ row.2 = old.2.update changes) ∨
        (matcher.accepts old.2 = false ∧ row.2 = old.2)) := by
  obtain ⟨old, hold, rfl⟩ := List.mem_map.mp h
  refine ⟨old, hold, ?_⟩
  cases haccepts : matcher.accepts old.2 with
  | true => exact ⟨rfl, .inl ⟨rfl, rfl⟩⟩
  | false => exact ⟨rfl, .inr ⟨rfl, rfl⟩⟩

/-- A deed that does not concern a row does not change what its stamps should say. -/
theorem Dated.cons {history : List Deed} {name : String} {stamps : Stamps} {row : Nat × Record}
    (h : Dated history name stamps row) {deed : Deed} (hstored : deed.storedAt? name row.1 = none)
    (hchanged : deed.changedAt? name row.1 = none) : Dated (deed :: history) name stamps row := by
  obtain ⟨stored, changed, hs, hc, hfields⟩ := h
  exact ⟨stored, changed, by rw [List.findSome?_cons, hstored, hs],
    by rw [List.findSome?_cons, hchanged, hc], hfields⟩

namespace Effect

variable {r q : Resource} {duty : Duty} {a b : Archive} {deeds history : List Deed}
  {stamps : Stamps}

theorem numbered (h : Effect r duty a b deeds) (ha : ∀ name, (a.collection name).Numbered)
    (name : String) : (b.collection name).Numbered := by
  cases h with
  | shrunk h => exact (ha name).of_numbers (h name).1 ((h name).2.map _)
  | added own others stamped given =>
      by_cases hname : name = r.name
      · rw [hname, own]
        exact (ha r.name).push _
      · rw [others name hname]
        exact ha name
  | updated own others ordered stamped given =>
      by_cases hname : name = r.name
      · rw [hname, own]
        exact (ha r.name).update _ _
      · rw [others name hname]
        exact ha name

theorem dated (h : Effect r duty a b deeds) (ha : (a.collection q.name).Numbered)
    (hq : q.Stamped stamps) (hsame : q.name = r.name → q = r)
    (hold : ∀ row ∈ (a.collection q.name).rows, Dated history q.name stamps row) :
    ∀ row ∈ (b.collection q.name).rows, Dated (deeds ++ history) q.name stamps row := by
  cases h with
  | shrunk h => exact fun row hrow => hold row ((h q.name).2.subset hrow)
  | @added stored own others stamped given =>
      by_cases hname : q.name = r.name
      · obtain rfl := hsame hname
        rw [own]
        intro row hrow
        obtain hrow | hrow := List.mem_append.mp hrow
        · have hne : (a.collection q.name).next ≠ row.1 := Nat.ne_of_gt (ha.lt_next row hrow)
          exact (hold row hrow).cons (if_neg fun h => hne h.2) (if_neg fun h => hne h.2)
        · rw [List.mem_singleton.mp hrow]
          exact ⟨_, _, by simp [Deed.storedAt?], by simp [Deed.changedAt?], stamped stamps hq⟩
      · rw [others q.name hname]
        exact fun row hrow => (hold row hrow).cons (if_neg fun h => hname h.1.symm)
          (if_neg fun h => hname h.1.symm)
  | @updated matcher changes own others ordered stamped given =>
      by_cases hname : q.name = r.name
      · obtain rfl := hsame hname
        rw [own]
        intro row hrow
        obtain ⟨old, hmem, hnumber, ⟨haccepts, hrow⟩ | ⟨haccepts, hrow⟩⟩ :=
          Collection.mem_rows_update hrow
        · -- the row was changed: when it was stored stays, and the deed says when it was changed
          obtain ⟨at', _, hstored, -, hcreated, -⟩ := hold old hmem
          obtain ⟨hnone, hnow⟩ := stamped stamps hq
          have hconcerned := (ha.mem_doomed_iff hmem).mpr haccepts
          have hchanged : Deed.changedAt? q.name old.1 (.changed q.name
              ((a.collection q.name).doomed matcher) a.supply.time) = some a.supply.time :=
            if_pos ⟨rfl, hconcerned⟩
          refine ⟨at', a.supply.time, ?_, ?_, ?_, ?_⟩
          · rw [← hnumber]
            exact hstored
          · rw [← hnumber, List.singleton_append, List.findSome?_cons, hchanged]
          · rw [hrow, Record.get?_update_of_ordered ordered, hnone]
            exact hcreated
          · rw [hrow, Record.get?_update_of_ordered ordered, hnow]
            rfl
        · have hrow : row = old := Prod.ext hnumber.symm hrow
          have hunconcerned : row.1 ∉ (a.collection q.name).doomed matcher := fun h => by
            rw [hrow, ha.mem_doomed_iff hmem, haccepts] at h
            cases h
          exact (hold row (hrow ▸ hmem)).cons rfl (if_neg fun h => hunconcerned h.2)
      · rw [others q.name hname]
        exact fun row hrow => (hold row hrow).cons rfl (if_neg fun h => hname h.1.symm)

/-- A field that is neither the key nor a stamp is left alone, or the caller has given it. -/
theorem given (h : Effect r duty a b deeds) (hsame : q.name = r.name → q = r) {field : String}
    (hkey : field ≠ q.keys.primaryKey) (hfield : ¬ q.IsStamp field) :
    ∀ row ∈ (b.collection q.name).rows,
      (∃ old ∈ (a.collection q.name).rows, old.1 = row.1 ∧
        row.2.get? field = old.2.get? field) ∨ (r = q ∧ duty.Gives field (row.2.get? field)) := by
  cases h with
  | shrunk h => exact fun row hrow => .inl ⟨row, (h q.name).2.subset hrow, rfl, rfl⟩
  | added own others stamped given =>
      by_cases hname : q.name = r.name
      · obtain rfl := hsame hname
        rw [own]
        intro row hrow
        obtain hrow | hrow := List.mem_append.mp hrow
        · exact .inl ⟨row, hrow, rfl, rfl⟩
        · rw [List.mem_singleton.mp hrow]
          exact .inr ⟨rfl, given field hkey hfield⟩
      · rw [others q.name hname]
        exact fun row hrow => .inl ⟨row, hrow, rfl, rfl⟩
  | @updated matcher changes own others ordered stamped given =>
      by_cases hname : q.name = r.name
      · obtain rfl := hsame hname
        rw [own]
        intro row hrow
        obtain ⟨old, hmem, hnumber, ⟨-, hrow⟩ | ⟨-, hrow⟩⟩ := Collection.mem_rows_update hrow
        · rw [hrow, Record.get?_update_of_ordered ordered]
          cases hvalue : changes.get? field with
          | none => exact .inl ⟨old, hmem, hnumber, rfl⟩
          | some value => exact .inr ⟨rfl, given field value hfield hvalue⟩
        · exact .inl ⟨old, hmem, hnumber, by rw [hrow]⟩
      · rw [others q.name hname]
        exact fun row hrow => .inl ⟨row, hrow, rfl, rfl⟩

end Effect

/-! ## The whole course -/

theorem Course.numbered {t : Forest} {history : List Deed} {a : Archive} (h : Course t history a) :
    ∀ name, (a.collection name).Numbered := by
  induction h with
  | fresh empty =>
      intro name
      refine ⟨?_, ?_⟩ <;> rw [empty name]
      · exact .nil
      · exact nofun
  | performed _ hm duty ih => exact (duty.effect hm).numbered ih
  | refusing _ hd reason ih => exact ih

/-- Whatever stewards are asked for, the stamps of every record say when it was stored and
when it was last changed, and where there are no stamps nobody but the caller sets a field
other than the key. -/
theorem stamps_faithful {c : Config} {t : Forest} (ht : Forest.ofConfig c = .ok t)
    {history : List Deed} {a : Archive} (h : Course t history a) {q : Resource}
    (hq : q ∈ t.resources) :
    (∀ stamps, q.Stamped stamps →
      ∀ row ∈ (a.collection q.name).rows, Dated history q.name stamps row) ∧
    ∀ m : Steward DocumentStore, m.Complete DocumentStore.ofResource t → ∀ duty : Duty,
      ∀ field, field ≠ q.keys.primaryKey → ¬ q.IsStamp field →
      ∀ row ∈ (((duty.perform Archive.backend m).outcome a).2.collection q.name).rows,
        (∃ old ∈ (a.collection q.name).rows, old.1 = row.1 ∧
          row.2.get? field = old.2.get? field) ∨
        (m.resource = q ∧ duty.Gives field (row.2.get? field)) := by
  have hsound := Forest.sound_of_ofConfig ht
  have hsame : ∀ {m : Steward DocumentStore}, m.Complete DocumentStore.ofResource t →
      q.name = m.resource.name → q = m.resource := fun hm hname =>
    (hm.resource_eq hname.symm (Forest.get?_of_mem hsound hq)).symm
  constructor
  · intro stamps hstamps
    induction h with
    | fresh empty =>
        rw [empty q.name]
        exact nofun
    | performed h hm duty ih =>
        exact (duty.effect hm).dated (h.numbered q.name) hstamps (hsame hm) ih
    | refusing _ hd reason ih => exact ih
  · exact fun m hm duty field hkey hfield => (duty.effect hm).given (hsame hm) hkey hfield

/-! ## A diary -/

def diary : Config where
  resources := [{ name := "entries", timestamps := some {} }]

def entries : Resource := diary.place { name := "entries", timestamps := some {} }

def diarist : Steward DocumentStore := .mk entries (.ofResource entries) none []

theorem diarist_complete : diarist.Complete DocumentStore.ofResource ⟨[entries]⟩ := by
  refine .mk rfl nofun (fun child hchild hparent => ?_) nofun
  rw [List.mem_singleton.mp (Forest.mem_of_get? hchild).1] at hparent
  cases hparent

/-- A day for every reading of the clock. -/
def days : Archive where
  supply := { randomBits := fun _ => 0, clock := fun n => ⟨n * 86400000000000⟩ }

def forged : Record :=
  .ofList [("createdAt", .string "long ago"), ("modifiedAt", .null), ("text", .string "x")]

/-- An entry that comes with stamps of its own, and is changed to others, has those of the
first and of the second day. -/
theorem stamps_faithful_diary :
    ∃ history a, Forest.ofConfig diary = .ok ⟨[entries]⟩ ∧ Course ⟨[entries]⟩ history a ∧
      entries.Stamped {} ∧
      (∀ row ∈ (a.collection "entries").rows, Dated history "entries" {} row) ∧
      (a.collection "entries").rows.map (fun row => ["createdAt", "modifiedAt", "text"].map
        fun field => (row.2.get? field).bind Json.string?) =
        [[some "2000-01-01T00:00:00+00:00", some "2000-01-02T00:00:00+00:00", some "x"]] := by
  have ht : Forest.ofConfig diary = .ok ⟨[entries]⟩ := Forest.ofConfig_of_check (by decide +kernel)
  have hstamped : entries.Stamped {} := ⟨rfl, by decide, by decide, by decide⟩
  have hfresh : Course ⟨[entries]⟩ [] days := .fresh fun _ => rfl
  have hadded := hfresh.performed diarist_complete (.add forged)
  have hchanged := hadded.performed diarist_complete
    (.update none forged (Record.ordered_ofList _))
  obtain ⟨hdated, -⟩ := stamps_faithful ht hchanged (List.mem_singleton_self entries)
  exact ⟨_, _, ht, hchanged, hstamped, hdated {} hstamped, by decide +kernel⟩

end Grove
