import Grove.Proofs.Http.Routed
import Grove.Proofs.Service

/-!
# What handlers ask of backends

The calls that a handler makes follow from what its request asks for. `Inquiry.Admitted`
lists them, and `perform_respects` says that these are all: where they are admitted the
handler respects what the backend's calls respect. `respond_alike` lifts this to whole
responses, and `wired_of_running` to services in use: whatever was asked of a service and
whatever became of its backend in the meantime, its stores and stewards are wired. What
else is to hold of services in use need only outlast calls for stewards and changes of the
backend, because a request comes to nothing more (`of_running`).
-/

namespace Grove.Http

variable {σ ρ : Type} {b : Backend σ ρ} {label : ρ → String} {R : σ → σ → Prop}
  {may : Call → Prop} {t : Forest}

namespace Inquiry

/-! ## Handlers that succeed -/

theorem list_eq_ok {i : Inquiry} {s u : Service σ ρ} {response : Response}
    (h : (i.list b).outcome s = (.ok response, u)) :
    ∃ c o m v records queried, i.listing = .ok (c, o) ∧ (i.steward b).outcome s = (.ok m, v) ∧
      (m.query b c o).outcome v.state = (.ok records, queried) ∧
      (u = { v with state := queried } ∨
        ∃ total counted, (m.count b c).outcome queried = (.ok total, counted) ∧
          u = { v with state := counted }) := by
  obtain ⟨⟨c, o⟩, hlisting, h⟩ := Attempt.outcome_liftM_bind_eq_ok.mp h
  obtain ⟨m, v, hm, h⟩ := Attempt.outcome_bind_eq_ok.mp h
  obtain ⟨records, w, hquery, h⟩ := Attempt.outcome_bind_eq_ok.mp h
  obtain ⟨queried, hqueried, rfl⟩ := Service.outcome_onBackend_eq_ok.mp hquery
  refine ⟨c, o, m, v, records, queried, hlisting, hm, hqueried, ?_⟩
  split at h
  · exact .inl (Prod.mk.inj h).2.symm
  · obtain ⟨total, w, hcount, h⟩ := Attempt.outcome_bind_eq_ok.mp h
    obtain ⟨counted, hcounted, rfl⟩ := Service.outcome_onBackend_eq_ok.mp hcount
    exact .inr ⟨total, counted, hcounted, (Prod.mk.inj h).2.symm⟩

theorem create_eq_ok {i : Inquiry} {s u : Service σ ρ} {response : Response}
    (h : (i.create b).outcome s = (.ok response, u)) :
    ∃ record m v stored added, i.creation = .ok record ∧ (i.steward b).outcome s = (.ok m, v) ∧
      (m.add b record).outcome v.state = (.ok stored, added) ∧
      response = .created (.object stored.fields) ∧ u = { v with state := added } := by
  obtain ⟨record, hrecord, h⟩ := Attempt.outcome_liftM_bind_eq_ok.mp h
  obtain ⟨m, v, hm, h⟩ := Attempt.outcome_bind_eq_ok.mp h
  obtain ⟨stored, w, hadd, h⟩ := Attempt.outcome_bind_eq_ok.mp h
  obtain ⟨added, hadded, rfl⟩ := Service.outcome_onBackend_eq_ok.mp hadd
  obtain ⟨hresponse, hstate⟩ := Prod.mk.inj h
  exact ⟨record, m, v, stored, added, hrecord, hm, hadded, (Except.ok.inj hresponse).symm,
    hstate.symm⟩

theorem delete_eq_ok {i : Inquiry} {s u : Service σ ρ} {response : Response}
    (h : (i.delete b).outcome s = (.ok response, u)) :
    ∃ c m v n removed, i.removal = .ok c ∧ (i.steward b).outcome s = (.ok m, v) ∧
      (m.remove b c).outcome v.state = (.ok n, removed) ∧ u = { v with state := removed } := by
  obtain ⟨c, hc, h⟩ := Attempt.outcome_liftM_bind_eq_ok.mp h
  obtain ⟨m, v, hm, h⟩ := Attempt.outcome_bind_eq_ok.mp h
  obtain ⟨n, w, hremove, h⟩ := Attempt.outcome_bind_eq_ok.mp h
  obtain ⟨removed, hremoved, rfl⟩ := Service.outcome_onBackend_eq_ok.mp hremove
  exact ⟨c, m, v, n, removed, hc, hm, hremoved, (Prod.mk.inj h).2.symm⟩

/-! ## Calls -/

/-- The calls of the handler of a task are admitted, apart from those that make stores. -/
def Admitted (i : Inquiry) (t : Forest) (may : Call → Prop) : Task → Prop
  | .list => ∀ c o, i.listing = .ok (c, o) →
      may ⟨i.resource.name, .query, c, some o⟩ ∧ may ⟨i.resource.name, .count, c, none⟩ ∧
      ∀ name ∈ o.fetch, i.resource.IsRelative t name → Call.Open may name
  | .create => may ⟨i.resource.name, .add, none, none⟩
  | .retrieve => ∀ c o id, i.retrieval = .ok (c, o, id) →
      may ⟨i.resource.name, .find, c, none⟩ ∧
      ∀ name ∈ o.fetch, i.resource.IsRelative t name → Call.Open may name
  | .update => ∀ c changes, i.change = .ok (c, changes) → may ⟨i.resource.name, .update, c, none⟩
  | .delete => ∀ c, i.removal = .ok c →
      may ⟨i.resource.name, .remove, c, none⟩ ∧ (∀ o, may ⟨i.resource.name, .query, c, some o⟩) ∧
      ∃ rank, t.Ranks rank ∧ ∀ name, rank i.resource.name < rank name → Call.Open may name

theorem admitted_of_forall (i : Inquiry) (ht : t.Sound) (h : ∀ call, may call) (task : Task) :
    i.Admitted t may task := by
  have hopen : ∀ name, Call.Open may name := fun _ _ _ _ => h _
  cases task with
  | list => exact fun _ _ _ => ⟨h _, h _, fun _ _ _ => hopen _⟩
  | create => exact h _
  | retrieve => exact fun _ _ _ _ => ⟨h _, fun _ _ _ => hopen _⟩
  | update => exact fun _ _ _ => h _
  | delete =>
      obtain ⟨rank, hrank⟩ := ht.ranked
      exact fun _ _ => ⟨h _, fun _ => h _, rank, hrank, fun _ _ => hopen _⟩

variable (hb : b.Obeys label R may) (hcreate : ∀ name, may ⟨name, .create, none, none⟩)
  (ht : t.Sound) {i : Inquiry} (hplace : i.resource ∈ t.resources)

include hb hcreate ht hplace

theorem steward_respects :
    (i.steward b).Respects (Service.Alike label t R) fun m =>
      m.resource = i.resource ∧ m.Wired label t := by
  refine (Service.steward_respects hb hcreate ht i.resource.name).mono fun m ⟨hname, hm⟩ => ?_
  have hplaced := hm.placed
  rw [hname, Forest.get?_of_mem ht hplace] at hplaced
  exact ⟨(Option.some.inj hplaced).symm, hm⟩

theorem perform_respects {task : Task} (h : i.Admitted t may task) :
    (i.perform b task).Respects (Service.Alike label t R) fun _ => True := by
  have hsteward := steward_respects hb hcreate ht hplace
  cases task with
  | list =>
      refine (Attempt.respects_liftM fun _ hasks => hasks).bind fun ⟨c, o⟩ hasks => ?_
      obtain ⟨hquery, hcount, hopen⟩ := h c o hasks
      refine hsteward.bind fun m ⟨hr, hm⟩ => ?_
      rw [← hr] at hquery hcount hopen
      refine (Service.onBackend_respects (Steward.query_respects hb hm hquery hopen)).bind
        fun records _ => ?_
      split
      · exact Attempt.respects_pure trivial
      · exact (Service.onBackend_respects (Steward.count_respects hb hm hcount)).bind
          fun total _ => Attempt.respects_pure trivial
  | create =>
      refine (Attempt.respects_liftM fun _ _ => trivial).bind fun record _ => ?_
      refine hsteward.bind fun m ⟨hr, hm⟩ => ?_
      rw [Admitted, ← hr] at h
      exact (Service.onBackend_respects (Steward.add_respects hb hm record h)).bind
        fun stored _ => Attempt.respects_pure trivial
  | retrieve =>
      refine (Attempt.respects_liftM fun _ hasks => hasks).bind fun ⟨c, o, id⟩ hasks => ?_
      obtain ⟨hfind, hopen⟩ := h c o id hasks
      refine hsteward.bind fun m ⟨hr, hm⟩ => ?_
      rw [← hr] at hfind hopen
      refine (Service.onBackend_respects (Steward.find_respects hb hm hfind)).bind
        fun found _ => ?_
      cases found with
      | none => exact Attempt.respects_throw
      | some record =>
          exact (Service.onBackend_respects (Steward.attach_respects hb hm hopen record)).bind
            fun record _ => Attempt.respects_pure trivial
  | update =>
      refine (Attempt.respects_liftM fun _ hasks => hasks).bind fun ⟨c, changes⟩ hasks => ?_
      have hupdate := h c changes hasks
      refine hsteward.bind fun m ⟨hr, hm⟩ => ?_
      rw [← hr] at hupdate
      exact (Service.onBackend_respects (Steward.update_respects hb hm changes hupdate)).bind
        fun count _ => Attempt.respects_pure trivial
  | delete =>
      refine (Attempt.respects_liftM fun _ hasks => hasks).bind fun c hasks => ?_
      obtain ⟨hremove, hquery, rank, hrank, hopen⟩ := h c hasks
      refine hsteward.bind fun m ⟨hr, hm⟩ => ?_
      rw [← hr] at hremove hquery hopen
      exact (Service.onBackend_respects
        (Steward.remove_respects hb hrank hm hremove hquery hopen)).bind
        fun count _ => Attempt.respects_pure trivial

end Inquiry

theorem answered_alike {S : Service σ ρ → Service σ ρ → Prop}
    {x : Attempt (Service σ ρ) Response} (hx : x.Respects S fun _ => True)
    {s u : Service σ ρ} (h : S s u) :
    (answered x s).1 = (answered x u).1 ∧ S (answered x s).2 (answered x u).2 := by
  obtain ⟨hsame, hstates, -⟩ := hx s u h
  simp only [answered]
  rcases hs : x.outcome s with ⟨a, s'⟩
  rcases hu : x.outcome u with ⟨a', u'⟩
  rw [hs, hu] at hsame hstates
  cases hsame
  cases a <;> exact ⟨rfl, hstates⟩

/-- Whatever a request is handled by makes admitted calls when the request's task does. -/
theorem handler?_respects (hb : b.Obeys label R may)
    (hcreate : ∀ name, may ⟨name, .create, none, none⟩) (ht : t.Sound) (about : About)
    {request : Request} {endpoint : Endpoint} {raw : List (String × String)}
    (hroute : findRoute (Endpoint.routes t) (Target.read request.target).path =
      some (endpoint, raw))
    (hadmitted : ∀ r raw task, Routed t request r raw task →
      (request.inquiry r raw).Admitted t may task)
    {x : Attempt (Service σ ρ) Response}
    (hx : handler? b about endpoint request.effectiveMethod (request.inquiry · raw) = some x) :
    x.Respects (Service.Alike label t R) fun _ => True := by
  cases endpoint with
  | health | info =>
      obtain ⟨response, rfl⟩ := handler?_own rfl hx
      exact Attempt.respects_pure trivial
  | collection r =>
      rw [handler?_collection, Option.map_eq_some_iff] at hx
      obtain ⟨task, htask, rfl⟩ := hx
      have hrouted : Routed t request r raw task := .collection hroute htask
      exact Inquiry.perform_respects hb hcreate ht (mem_of_routed hrouted) (hadmitted _ _ _ hrouted)
  | item r =>
      rw [handler?_item, Option.map_eq_some_iff] at hx
      obtain ⟨task, htask, rfl⟩ := hx
      have hrouted : Routed t request r raw task := .item hroute htask
      exact Inquiry.perform_respects hb hcreate ht (mem_of_routed hrouted) (hadmitted _ _ _ hrouted)

/-- Services that are alike give one answer and stay alike, as far as the calls that the
answer takes are admitted. -/
theorem respond_alike (hb : b.Obeys label R may) (hcreate : ∀ name, may ⟨name, .create, none, none⟩)
    (ht : t.Sound) (about : About) {request : Request} {s u : Service σ ρ}
    (h : Service.Alike label t R s u)
    (hadmitted : ∀ r raw task, Routed t request r raw task →
      (request.inquiry r raw).Admitted t may task) :
    ((respond b about request).run s).1 = ((respond b about request).run u).1 ∧
      Service.Alike label t R ((respond b about request).run s).2
        ((respond b about request).run u).2 := by
  simp only [run_respond, h.left, h.right]
  cases hroute : findRoute (Endpoint.routes t) (Target.read request.target).path with
  | none => exact ⟨rfl, h⟩
  | some found =>
      obtain ⟨endpoint, raw⟩ := found
      simp only [run_respondAt]
      split
      · exact ⟨rfl, h⟩
      · cases hx : handler? b about endpoint request.effectiveMethod (request.inquiry · raw) with
        | none => exact ⟨rfl, h⟩
        | some x =>
            obtain ⟨hsame, halike⟩ := answered_alike
              (handler?_respects hb hcreate ht about hroute hadmitted hx) h
            exact ⟨congrArg request.presented hsame, halike⟩

/-! ## Services in use -/

/-- The services that can come about: new ones, and those that have answered a request or
were asked for a steward, or whose backend has changed in the meantime. -/
inductive Running (b : Backend σ ρ) (t : Forest) : Service σ ρ → Prop
  | fresh (state : σ) : Running b t { tree := t, state }
  | answered {s : Service σ ρ} (about : About) (request : Request) :
      Running b t s → Running b t ((respond b about request).run s).2
  | asked {s : Service σ ρ} (name : String) :
      Running b t s → Running b t ((Service.steward b name).outcome s).2
  | changed {s : Service σ ρ} (state : σ) : Running b t s → Running b t { s with state }

theorem obeys_eq (hlabel : b.Labels label) : b.Obeys label (fun s u => s = u) fun _ => True := by
  have hrefl : ∀ {α : Type} (x : Attempt σ α), x.Respects (fun s u => s = u) fun _ => True :=
    fun x s u h => h ▸ ⟨rfl, rfl, fun _ _ => trivial⟩
  exact ⟨fun r _ s u h => h ▸ ⟨rfl, rfl, hlabel r s⟩, fun _ _ _ => hrefl _, fun _ _ _ => hrefl _,
    fun _ _ _ _ => hrefl _, fun _ _ _ => hrefl _, fun _ _ _ _ => hrefl _, fun _ _ _ => hrefl _,
    hrefl _⟩

/-- A service in use is as it was made: of its tree, with wired stores and stewards. -/
theorem wired_of_running (hlabel : b.Labels label) (ht : t.Sound) {s : Service σ ρ}
    (h : Running b t s) : s.tree = t ∧ s.Wired label := by
  have hb := obeys_eq hlabel
  have halike : ∀ {s : Service σ ρ}, s.tree = t ∧ s.Wired label →
      Service.Alike label t (fun s u => s = u) s s :=
    fun h => ⟨h.1, h.1, rfl, rfl, rfl, h.2⟩
  induction h with
  | fresh state => exact ⟨rfl, nofun, nofun⟩
  | answered about request _ ih =>
      obtain ⟨-, h⟩ := respond_alike hb (fun _ => trivial) ht about (halike ih)
        fun r raw task _ => (request.inquiry r raw).admitted_of_forall ht (fun _ => trivial) task
      exact ⟨h.left, h.wired⟩
  | asked name _ ih =>
      obtain ⟨-, h, -⟩ := Service.steward_respects hb (fun _ => trivial) ht name _ _ (halike ih)
      exact ⟨h.left, h.wired⟩
  | changed state _ ih => exact ⟨ih.1, ih.2.store, ih.2.steward⟩

/-! ## What stewards and changes of the backend keep -/

section

variable {I : Service σ ρ → Prop}
  (hsteward : ∀ name s, I s → I ((Service.steward b name).outcome s).2)
  (hchanged : ∀ s state, I s → I { s with state })

include hsteward hchanged

theorem Inquiry.perform_keeps (i : Inquiry) (task : Task) :
    (i.perform b task).Respects (fun s u => s = u ∧ I s) fun _ => True := by
  have hm : (i.steward b).Respects (fun s u => s = u ∧ I s) fun _ => True :=
    Attempt.respects_invariant.mpr fun s hs => ⟨hsteward _ s hs, fun _ _ => trivial⟩
  have hbackend : ∀ {α : Type} (x : Attempt σ α), (Service.onBackend x :
      Attempt (Service σ ρ) α).Respects (fun s u => s = u ∧ I s) fun _ => True := fun x =>
    Attempt.respects_invariant.mpr fun s hs => ⟨hchanged s _ hs, fun _ _ => trivial⟩
  have hasks : ∀ {α : Type} {x : Except Failure α},
      (liftM x : Attempt (Service σ ρ) α).Respects (fun s u => s = u ∧ I s) fun _ => True :=
    Attempt.respects_liftM fun _ _ => trivial
  cases task with
  | list =>
      refine hasks.bind fun ⟨c, o⟩ _ => hm.bind fun m _ => (hbackend _).bind fun records _ => ?_
      split
      · exact Attempt.respects_pure trivial
      · exact (hbackend _).bind fun total _ => Attempt.respects_pure trivial
  | create | update | delete =>
      exact hasks.bind fun _ _ => hm.bind fun m _ => (hbackend _).bind fun _ _ =>
        Attempt.respects_pure trivial
  | retrieve =>
      refine hasks.bind fun ⟨c, o, id⟩ _ => hm.bind fun m _ => (hbackend _).bind fun found _ => ?_
      cases found with
      | none => exact Attempt.respects_throw
      | some record => exact (hbackend _).bind fun _ _ => Attempt.respects_pure trivial

theorem respond_keeps (about : About) (request : Request) {s : Service σ ρ} (hs : I s) :
    I ((respond b about request).run s).2 := by
  rw [run_respond]
  cases findRoute (Endpoint.routes s.tree) (Target.read request.target).path with
  | none => exact hs
  | some found =>
      obtain ⟨endpoint, raw⟩ := found
      simp only [run_respondAt]
      split
      · exact hs
      · cases hx : handler? b about endpoint request.effectiveMethod (request.inquiry · raw) with
        | none => exact hs
        | some x =>
            have hkeeps : x.Respects (fun s u => s = u ∧ I s) fun _ => True := by
              cases endpoint with
              | health | info =>
                  obtain ⟨response, rfl⟩ := handler?_own rfl hx
                  exact Attempt.respects_pure trivial
              | collection r =>
                  rw [handler?_collection, Option.map_eq_some_iff] at hx
                  obtain ⟨task, -, rfl⟩ := hx
                  exact Inquiry.perform_keeps hsteward hchanged _ task
              | item r =>
                  rw [handler?_item, Option.map_eq_some_iff] at hx
                  obtain ⟨task, -, rfl⟩ := hx
                  exact Inquiry.perform_keeps hsteward hchanged _ task
            exact (answered_alike hkeeps ⟨rfl, hs⟩).2.2

/-- What is true of new services and outlasts both calls for stewards and changes of the
backend is true of all services that can come about. -/
theorem of_running (hfresh : ∀ state, I { tree := t, state }) {s : Service σ ρ}
    (h : Running b t s) : I s := by
  induction h with
  | fresh state => exact hfresh state
  | answered about request _ ih => exact respond_keeps hsteward hchanged about request ih
  | asked name _ ih => exact hsteward name _ ih
  | changed state _ ih => exact hchanged _ state ih

end

end Grove.Http
