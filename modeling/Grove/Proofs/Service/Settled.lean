import Grove.Proofs.Document.Sound
import Grove.Proofs.Service.Once
import Grove.Proofs.Steward.Stamps

/-!
# What a running service holds

A service makes the store of a resource when it is first asked for it, so at any time some
resources have a store and others have none yet. What is held for the first is sound
(`Collection.Sound`). For the others there is nothing in memory, but there may be a table from
before the service was started, and what is read from it when the store is made has to be
sound as well (`Holding.Dormant`). The two together are kept by whatever a service does
(`settled_of_reached`): a store that is made wakes what was dormant, the work of a steward goes
to stores that are made, but for removals, which may go anywhere and wake nothing, and a
restart puts everything to sleep.
-/

namespace Grove

/-- What is held for a resource without a store: no records in memory, and in the table the
text of a sound collection. -/
structure Holding.Dormant (h : Holding) (keys : KeyPolicy) : Prop where
  empty : h.collection.rows = []
  ledger : ∀ j, h.ledger = some j → ∃ c : Collection, j = c.rows.map Ledger.written ∧
    c.Sound keys ∧ ∀ r ∈ c.records, r.ReadsBack

/-- What is held for the resources of a tree, where the stores of those names are made. -/
structure Archive.Settled (t : Forest) (made : String → Prop) (a : Archive) : Prop where
  sound : ∀ r ∈ t.resources, made r.name → (a.holding r.name).Sound r.keys
  dormant : ∀ r ∈ t.resources, ¬ made r.name → (a.holding r.name).Dormant r.keys

def Service.Made (s : Service Archive DocumentStore) (name : String) : Prop :=
  s.stores.lookup name ≠ none

/-- The services that come about when a service is asked for stores and stewards, and these
are put to work. -/
inductive Service.Reached (t : Forest) : Service Archive DocumentStore → Prop
  | inMemory (supply : Supply) : Reached t { tree := t, state := { supply } }
  | onDatabase (supply : Supply) : Reached t { tree := t, state := { supply, database := some {} } }
  | asked {s : Service Archive DocumentStore} (h : Reached t s) (ask : Ask) :
      Reached t (ask.after Archive.backend s)
  | commanded {s : Service Archive DocumentStore} (h : Reached t s) {name : String}
      {store : DocumentStore} (kept : s.stores.lookup name = some store) (command : Command) :
      Reached t { s with state := ((command.perform Archive.backend store).outcome s.state).2 }
  | performed {s : Service Archive DocumentStore} (h : Reached t s) {name : String}
      {m : Steward DocumentStore} (kept : s.stewards.lookup name = some m) (duty : Duty) :
      Reached t { s with state := ((duty.perform Archive.backend m).outcome s.state).2 }
  /-- The database begins to refuse what is written, or takes it again. -/
  | refusing {s : Service Archive DocumentStore} (h : Reached t s) {d : Database}
      (hd : s.state.database = some d) (reason : Option String) :
      Reached t { s with state := { s.state with database := some { d with refusal := reason } } }
  /-- The process starts again, and later reads the records as they were written. -/
  | restarted {s : Service Archive DocumentStore} (h : Reached t s)
      (hread : ∀ r ∈ t.resources,
        ∀ record ∈ (s.state.collection r.name).records, record.ReadsBack) :
      Reached t (s.restarted s.state.restarted)

/-! ## Duties -/

/-- A duty of a steward keeps what the calls keep that it can come to. -/
theorem Duty.keeps {t : Forest} {m : Steward DocumentStore}
    (hm : m.Complete DocumentStore.ofResource t) {I : Archive → Prop}
    (hsupply : ∀ a supply, I a → I { a with supply })
    (hadd : ∀ a record, I a → I (((DocumentStore.ofResource m.resource).add record).outcome a).2)
    (hupdate : ∀ a c changes, I a →
      I (((DocumentStore.ofResource m.resource).update c changes).outcome a).2)
    (hremove : ∀ (s : DocumentStore) a c, I a → I ((s.remove c).outcome a).2) (duty : Duty)
    {a : Archive} (ha : I a) : I ((duty.perform Archive.backend m).outcome a).2 := by
  have hremoves : ∀ c, I ((m.remove Archive.backend c).outcome a).2 := fun c => by
    refine (Attempt.respects_invariant.mp (Steward.remove_of_calls ?_ ?_ m c) a ha).1
    · exact fun s c o => Attempt.respects_invariant.mpr fun u hu =>
        ⟨(congrArg Prod.snd (s.outcome_query u c o)).symm ▸ hu, fun _ _ => trivial⟩
    · exact fun s c => Attempt.respects_invariant.mpr fun u hu =>
        ⟨hremove s u c hu, fun _ _ => trivial⟩
  have hupdates : ∀ c {changes : Record}, changes.Ordered →
      I ((m.update Archive.backend c changes).outcome a).2 := by
    intro c changes hordered
    obtain ⟨restamped, supply, hstamp, -⟩ := m.outcome_restamp a hordered
    rw [Steward.update, Attempt.outcome_bind, hstamp, hm.store_eq]
    exact hupdate _ c restamped (hsupply a supply ha)
  have hreads : duty.Reads → I ((duty.perform Archive.backend m).outcome a).2 := fun h => by
    rw [state_of_reads h]
    exact ha
  cases duty with
  | find c => exact hreads (.find c)
  | findByKey key => exact hreads (.findByKey key)
  | query c o => exact hreads (.query c o)
  | count c => exact hreads (.count c)
  | attach record names => exact hreads (.attach record names)
  | add record =>
      obtain ⟨stamped, supply, hstored, -⟩ := Steward.outcome_add hm a record
      rw [perform, Attempt.outcome_map, hstored]
      exact hadd _ stamped (hsupply a supply ha)
  | update c changes ordered =>
      rw [perform, Attempt.outcome_map]
      exact hupdates c ordered
  | refresh c =>
      rw [perform, Attempt.outcome_map]
      cases hstamps : m.resource.timestamps with
      | none =>
          rw [Steward.refresh, hstamps]
          exact (congrArg Prod.snd (m.store.outcome_count a c)).symm ▸ ha
      | some stamps =>
          rw [refresh_eq hstamps]
          exact hupdates c Record.ordered_empty
  | remove c =>
      rw [perform, Attempt.outcome_map]
      exact hremoves c
  | removeByKey key =>
      rw [perform, Attempt.outcome_map]
      exact hremoves _

/-! ## What the calls keep -/

namespace Archive

variable {t : Forest} {made : String → Prop} {a b : Archive} {r : Resource}

/-- What is held for one resource that has a store may be replaced by something sound. -/
theorem Settled.of_own (h : a.Settled t made) (ht : t.Sound) (hr : r ∈ t.resources)
    (hmade : made r.name) (hown : (b.holding r.name).Sound r.keys)
    (hothers : ∀ other, other ≠ r.name → b.holding other = a.holding other) :
    b.Settled t made where
  sound q hq hq' := by
    by_cases hname : q.name = r.name
    · have hsame : q = r := by
        have hplaced := Forest.get?_of_mem ht hq
        rw [hname, Forest.get?_of_mem ht hr] at hplaced
        exact (Option.some.inj hplaced).symm
      rw [hsame]
      exact hown
    · rw [hothers _ hname]
      exact h.sound q hq hq'
  dormant q hq hq' := by
    have hname : q.name ≠ r.name := fun hname => hq' (by rw [hname]; exact hmade)
    rw [hothers _ hname]
    exact h.dormant q hq hq'

theorem Settled.sound_store (h : a.Settled t made) (hr : r ∈ t.resources) (hmade : made r.name) :
    a.Sound [.ofResource r] :=
  List.forall_mem_singleton.mpr (h.sound r hr hmade)

theorem Settled.perform (h : a.Settled t made) (ht : t.Sound) (hr : r ∈ t.resources)
    (hmade : made r.name) (command : Command) :
    ((command.perform backend (.ofResource r)).outcome a).2.Settled t made := by
  have hsound :=
    (h.sound_store hr hmade).perform (oneKey_singleton _) (List.mem_singleton_self _) command
  exact h.of_own ht hr hmade (hsound _ (List.mem_singleton_self _))
    fun other hother => DocumentStore.perform_others hother command

/-- Where there is nothing in memory, a removal finds nothing to remove. -/
theorem dormant_of_remove {s : DocumentStore} {keys : KeyPolicy}
    (h : (a.holding s.collection).Dormant keys) (c : Option Criteria) :
    (((s.remove c).outcome a).2.holding s.collection).Dormant keys := by
  rw [DocumentStore.outcome_remove]
  cases Matcher.ofCriteria c with
  | error f => exact h
  | ok m =>
      have hrows : (a.collection s.collection).rows = [] := h.empty
      have hdoomed : (a.collection s.collection).doomed m = [] := by
        rw [Collection.doomed, hrows]
        rfl
      simp only [hdoomed]
      obtain ⟨reason, -, hsome, -⟩ | ⟨b, -, hdone, hrewritten⟩ :=
        s.rewrite_cases a [] [] ((a.collection s.collection).remove m)
          ((a.collection s.collection).matching m).length
      · exact absurd ⟨rfl, rfl⟩ hsome
      · rw [hdone, hrewritten.own]
        refine ⟨?_, fun j hj => ?_⟩
        · rw [Collection.remove, hrows]
          rfl
        · obtain ⟨old, hold, rfl⟩ := Option.map_eq_some_iff.mp hj
          rw [Ledger.deleteAll_nil]
          exact h.ledger old hold

theorem Settled.remove (h : a.Settled t made) (s : DocumentStore) (c : Option Criteria) :
    ((s.remove c).outcome a).2.Settled t made where
  sound q hq hmade := by
    by_cases hname : q.name = s.collection
    · -- A removal goes by the name of the store alone.
      obtain ⟨collection, keys⟩ := s
      obtain rfl : q.name = collection := hname
      have hsound :=
        (h.sound_store hq hmade).remove (oneKey_singleton _) (List.mem_singleton_self _) c
      exact hsound _ (List.mem_singleton_self _)
    · rw [DocumentStore.remove_others hname c]
      exact h.sound q hq hmade
  dormant q hq hmade := by
    by_cases hname : q.name = s.collection
    · have hdormant := h.dormant q hq hmade
      rw [hname] at hdormant ⊢
      exact dormant_of_remove hdormant c
    · rw [DocumentStore.remove_others hname c]
      exact h.dormant q hq hmade

/-- When the store of a resource is made, what is held for it wakes. -/
theorem opened_of_dormant {name : String} {keys : KeyPolicy} (h : (a.holding name).Dormant keys)
    {made : DocumentStore}
    (hopened : (DocumentStore.opened name keys).outcome a = (.ok made, b)) :
    (b.holding name).Sound keys ∧ ∀ other, other ≠ name → b.holding other = a.holding other := by
  cases hd : a.database with
  | none =>
      rw [DocumentStore.outcome_opened, hd] at hopened
      cases hopened
      refine ⟨⟨?_, fun j hj => ?_⟩, fun other hother => ?_⟩
      · rw [holding, collection_replace_self]
        exact Collection.sound_empty keys
      · rw [holding, replace, hd] at hj
        cases hj
      · rw [holding, collection_replace a hother]
        rfl
  | some d =>
      have htable : (a.holding name).ledger = some (d.ledger name) := by
        rw [holding, hd, Option.map_some]
      obtain ⟨c, hwritten, hsound, hread⟩ := h.ledger _ htable
      cases hrefusal : d.refusal with
      | some reason =>
          rw [DocumentStore.outcome_opened, hd] at hopened
          simp only [Database.prepare, hrefusal] at hopened
          cases hopened
      | none =>
          have hwritable : a.refusal = none := by rw [refusal, hd]; exact hrefusal
          obtain ⟨b', hdone, hrewritten⟩ :=
            DocumentStore.opened_written keys hwritable (hwritten ▸ htable) hread
          cases hdone.symm.trans hopened
          refine ⟨?_, hrewritten.others⟩
          rw [hrewritten.own, htable, hwritten]
          refine ⟨hsound.of_records rfl hsound.numbered.reopened, fun j hj => ?_⟩
          cases hj
          exact Ledger.deleteAll_nil _

theorem eq_of_opened_error {name : String} {keys : KeyPolicy} {e : Failure}
    (h : (DocumentStore.opened name keys).outcome a = (.error e, b)) : b = a := by
  rw [DocumentStore.outcome_opened] at h
  split at h
  · cases h
  · split at h
    · cases h
      rfl
    · split at h <;> cases h
      rfl

end Archive

/-! ## Runs -/

namespace Service

variable {t : Forest} {s u : Service Archive DocumentStore} {w : Work DocumentStore}
  {may : Work DocumentStore → Prop}

theorem made_of_kept {name : String} {store : DocumentStore}
    (kept : s.stores.lookup name = some store) : s.Made name := by
  rw [Made, kept]
  exact Option.some_ne_none store

theorem Step.settled (h : Step Archive.backend w s u) (ht : t.Sound) (hs : Orderly t s)
    (hheld : s.state.Settled t s.Made) : u.state.Settled t u.Made := by
  cases h with
  | refused known missing came => exact Archive.eq_of_opened_error came ▸ hheld
  | joined missing joint => exact hheld
  | @made s r store state known missing came =>
      have hr := (Forest.mem_of_get? (hs.tree ▸ known)).1
      have hmissing : ¬ s.Made r.name := not_not_intro missing
      obtain ⟨hsound, hothers⟩ := Archive.opened_of_dormant (hheld.dormant r hr hmissing) came
      have hmade : ∀ name, Made { s with state, stores := (r.name, store) :: s.stores } name ↔
          name = r.name ∨ s.Made name := by
        intro name
        rw [Made, Made, List.lookup_cons]
        by_cases hname : name = r.name
        · simp [hname]
        · simp [hname, beq_false_of_ne hname]
      refine ⟨fun q hq hq' => ?_, fun q hq hq' => ?_⟩
      · by_cases hname : q.name = r.name
        · have hplaced := Forest.get?_of_mem ht hq
          rw [hname, Forest.get?_of_mem ht hr] at hplaced
          cases hplaced
          exact hsound
        · simp only [hothers _ hname]
          exact hheld.sound q hq (((hmade _).mp hq').resolve_left hname)
      · rw [hmade, not_or] at hq'
        simp only [hothers _ hq'.1]
        exact hheld.dormant q hq hq'.2

theorem Steps.settled (h : Steps Archive.backend may s u) (ht : t.Sound) (hs : Orderly t s)
    (hheld : s.state.Settled t s.Made) : u.state.Settled t u.Made := by
  induction h with
  | start => exact hheld
  | next earlier _ step ih => exact step.settled ht (earlier.orderly hs) ih

theorem Reached.inUse (ht : t.Sound) (h : Reached t s) : InUse Archive.backend t s := by
  induction h with
  | inMemory supply | onDatabase supply => exact .fresh _
  | asked _ ask ih =>
      cases ask with
      | store name => exact .store name ih
      | steward name => exact .steward name ih
  | commanded _ kept command ih => exact .changed _ ih
  | performed _ kept duty ih => exact .changed _ ih
  | refusing _ hd reason ih => exact .changed _ ih
  | restarted _ hread ih =>
      rw [Service.restarted, (kept_of_inUse Archive.backend_makes ht ih).tree]
      exact .fresh _

/-- Whatever a running service has done, what is held for a resource is sound if its store is
made, and something to begin with if not. -/
theorem settled_of_reached (ht : t.Linked) (h : Reached t s) : s.state.Settled t s.Made := by
  induction h with
  | inMemory supply =>
      exact ⟨fun _ _ hmade => absurd rfl hmade, fun _ _ _ => ⟨rfl, nofun⟩⟩
  | onDatabase supply =>
      refine ⟨fun _ _ hmade => absurd rfl hmade, fun r _ _ => ⟨rfl, fun j hj => ?_⟩⟩
      cases hj
      exact ⟨{}, rfl, Collection.sound_empty r.keys, nofun⟩
  | asked h ask ih =>
      have hs := orderly_of_inUse ht (h.inUse ht.sound)
      exact (ask.steps ht hs).settled ht.sound hs ih
  | @commanded s h name store kept command ih =>
      obtain ⟨r, known, rfl⟩ :=
        (kept_of_inUse Archive.backend_makes ht.sound (h.inUse ht.sound)).store name store kept
      obtain ⟨hr, rfl⟩ := Forest.mem_of_get? known
      exact ih.perform ht.sound hr (made_of_kept kept) command
  | @performed s h name m kept duty ih =>
      have hinUse := h.inUse ht.sound
      obtain ⟨hname, hm⟩ :=
        (kept_of_inUse Archive.backend_makes ht.sound hinUse).steward name m kept
      have hjoint := (orderly_of_inUse ht hinUse).joint name m kept
      have hr := (Forest.mem_of_get? hm.placed).1
      have hmade : s.Made m.resource.name := hname ▸ made_of_kept hjoint.own
      exact duty.keeps hm (fun a _ ha => ⟨ha.sound, ha.dormant⟩)
        (fun a record ha => by
          have hadded := ha.perform ht.sound hr hmade (.add record)
          rwa [Command.perform, Attempt.outcome_map] at hadded)
        (fun a c changes ha => by
          have hupdated := ha.perform ht.sound hr hmade (.update c changes)
          rwa [Command.perform, Attempt.outcome_map] at hupdated)
        (fun store a c ha => ha.remove store c) ih
  | @refusing s h d hd reason ih =>
      have hheld : ∀ name, Archive.holding
          { s.state with database := some { d with refusal := reason } } name =
          s.state.holding name := by
        intro name
        rw [Archive.holding, Archive.holding, hd]
        rfl
      refine ⟨fun r hr hmade => ?_, fun r hr hmade => ?_⟩
      · rw [hheld]
        exact ih.sound r hr hmade
      · rw [hheld]
        exact ih.dormant r hr hmade
  | @restarted s h hread ih =>
      refine ⟨fun _ _ hmade => absurd rfl hmade, fun r hr _ => ⟨rfl, fun j hj => ?_⟩⟩
      by_cases hmade : s.Made r.name
      · obtain ⟨hsound, hledger⟩ := ih.sound r hr hmade
        exact ⟨_, hledger j hj, hsound, hread r hr⟩
      · exact (ih.dormant r hr hmade).ledger j hj

/-- What the stewards of a running service work on is sound. -/
theorem Reached.sound_of_kept (ht : t.Linked) (h : Reached t s) {r : Resource}
    (hr : t.get? r.name = some r) {store : DocumentStore}
    (kept : s.stores.lookup r.name = some store) :
    (s.state.collection r.name).Sound r.keys := by
  have hsound := (settled_of_reached ht h).sound r (Forest.mem_of_get? hr).1 (made_of_kept kept)
  exact hsound.collection

end Service

end Grove
