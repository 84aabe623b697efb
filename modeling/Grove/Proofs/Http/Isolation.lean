import Grove.Proofs.Backend.Watch
import Grove.Proofs.Criteria.Confine
import Grove.Proofs.Document.Apart
import Grove.Proofs.Http.Gate
import Grove.Proofs.Http.Handled
import Grove.Proofs.Resource.Path

/-!
# What a path encloses

A path with parameters names one record, or what belongs to the records above. Everything
that its handler then selects of the resource lies within: each call carries criteria that
confine to the values in the path, and a record that is created is given them
(`path_isolation`). This needs that the parameters of the route are the ones that the
resource knows its fields by, and that the values have been read.

Values that are no text are the exception. The handlers for one record refuse them. Those
for lists and for new records go on as if the path had no parameters, so that nothing of
it restricts what they do.
-/

namespace Grove

def Operation.selects : Operation → Bool
  | .find | .query | .count | .update | .remove => true
  | .create | .add => false

/-- There are criteria, and they confine to every value in the path. -/
def Resource.Confined (r : Resource) (raw : List (String × String)) (c : Option Criteria) : Prop :=
  ∀ p ∈ raw, ∃ value d, Percent.decode? p.2 = some value ∧ c = some d ∧
    d.Confines (r.fieldOf p.1) (.string value)

/-- The call selects nothing of the resource that the values in the path do not name. -/
def Call.StaysWithin (r : Resource) (raw : List (String × String)) (call : Call) : Prop :=
  call.resource = r.name → call.operation.selects = true → r.Confined raw call.criteria

def Resource.Encloses (r : Resource) (raw : List (String × String)) (record : Record) : Prop :=
  ∀ p ∈ raw, ∃ value, Percent.decode? p.2 = some value ∧
    record.get? (r.fieldOf p.1) = some (.string value)

/-- The ancestors' parameters have fields of their own, which are no stamps. -/
structure Resource.KeepsApart (r : Resource) : Prop where
  fields : (r.ancestorParams.map r.fieldOf).Nodup
  stamps : ∀ stamps, r.timestamps = some stamps → ∀ name ∈ r.ancestorParams,
    r.fieldOf name ≠ stamps.created ∧ r.fieldOf name ≠ stamps.modified

namespace Http

def Task.pathNames (r : Resource) : Task → List String
  | .list | .create => r.ancestorParams
  | .retrieve | .update | .delete => r.pathNames

variable {c : Config} {t : Forest} {request : Request} {r : Resource}
  {raw : List (String × String)} {task : Task}

/-! ## The parameters of a request -/

theorem names_of_routed (hc : Forest.ofConfig c = .ok t) (hbases : c.PlainBases)
    (h : Routed t request r raw task) : raw.map (·.1) = task.pathNames r := by
  have hr := mem_of_routed h
  cases h with
  | collection route method =>
      obtain ⟨route, hmem, htakes⟩ := findRoute_eq_some route
      obtain ⟨r', -, ⟨heq, rfl⟩ | ⟨heq, -⟩⟩ := mem_routes hmem rfl <;> cases heq
      rw [params_of_takes? htakes, Resource.params_collectionPath hc hbases hr]
      unfold Task.ofCollection? at method
      split at method <;> cases method <;> rfl
  | item route method =>
      obtain ⟨route, hmem, htakes⟩ := findRoute_eq_some route
      obtain ⟨r', -, ⟨heq, -⟩ | ⟨heq, rfl⟩⟩ := mem_routes hmem rfl <;> cases heq
      rw [params_of_takes? htakes, Resource.params_recordPath hc hbases hr]
      unfold Task.ofItem? at method
      split at method <;> cases method <;> rfl

theorem pathNames_sublist (r : Resource) (task : Task) :
    (task.pathNames r).Sublist r.pathNames := by
  cases task with
  | list | create => exact List.sublist_append_left _ _
  | retrieve | update | delete => exact List.Sublist.refl _

theorem mem_pathNames_of_routed (hc : Forest.ofConfig c = .ok t) (hbases : c.PlainBases)
    (h : Routed t request r raw task) : ∀ p ∈ raw, p.1 ∈ task.pathNames r :=
  List.forall_mem_map.mp fun _ hname => names_of_routed hc hbases h ▸ hname

theorem lookup_of_routed (hc : Forest.ofConfig c = .ok t) (hbases : c.PlainBases)
    (h : Routed t request r raw task) {params : Params} (hparams : decodeParams raw = .ok params) :
    ∀ p ∈ raw, p.1 ∈ r.pathNames ∧
      ∃ value, Percent.decode? p.2 = some value ∧ params.lookup p.1 = some value := by
  have hnodup : (raw.map (·.1)).Nodup := by
    rw [names_of_routed hc hbases h]
    exact (Resource.pathNames_nodup hc (mem_of_routed h)).sublist (pathNames_sublist r task)
  intro p hp
  exact ⟨(pathNames_sublist r task).subset (mem_pathNames_of_routed hc hbases h p hp),
    lookup_decodeParams hparams hnodup p hp⟩

theorem routed_unique {r' : Resource} {raw' : List (String × String)} {task' : Task}
    (h : Routed t request r raw task) (h' : Routed t request r' raw' task') :
    r = r' ∧ raw = raw' ∧ task = task' := by
  cases h with
  | collection route method =>
      cases h' with
      | collection route' method' =>
          rw [route] at route'
          rw [method] at method'
          cases route'
          cases method'
          exact ⟨rfl, rfl, rfl⟩
      | item route' method' =>
          rw [route] at route'
          cases route'
  | item route method =>
      cases h' with
      | collection route' method' =>
          rw [route] at route'
          cases route'
      | item route' method' =>
          rw [route] at route'
          rw [method] at method'
          cases route'
          cases method'
          exact ⟨rfl, rfl, rfl⟩

/-! ## Calls -/

theorem optionalParams_of_readable {params : Params} (h : decodeParams raw = .ok params) :
    (request.inquiry r raw).optionalParams = params := by
  simp only [Inquiry.optionalParams, Request.inquiry, h]

theorem confined_of_pathRestriction (hc : Forest.ofConfig c = .ok t) (hbases : c.PlainBases)
    (h : Routed t request r raw task) {params : Params} (hparams : decodeParams raw = .ok params) :
    r.Confined raw (r.pathRestriction params) := by
  intro p hp
  obtain ⟨hname, value, hvalue, hlookup⟩ := lookup_of_routed hc hbases h hparams p hp
  obtain ⟨d, hd, hconfines⟩ := Resource.confines_of_pathRestriction hname hlookup
  exact ⟨value, d, hvalue, hd, hconfines⟩

theorem confined_of_listing (hc : Forest.ofConfig c = .ok t) (hbases : c.PlainBases)
    (h : Routed t request r raw .list) (hread : ∃ params, decodeParams raw = .ok params)
    {selected : Option Criteria} {o : Paging}
    (hlisting : (request.inquiry r raw).listing = .ok (selected, o)) :
    r.Confined raw selected := by
  obtain ⟨params, hparams⟩ := hread
  obtain ⟨hselected, -, -⟩ := Inquiry.listing_eq_ok hlisting
  rw [optionalParams_of_readable hparams] at hselected
  intro p hp
  obtain ⟨hname, value, hvalue, hlookup⟩ := lookup_of_routed hc hbases h hparams p hp
  obtain ⟨d, hd, hconfines⟩ := Resource.confines_of_withQuery hname hlookup hselected
  exact ⟨value, d, hvalue, hd, hconfines⟩

theorem staysWithin_of_confined {operation : Operation} {c : Option Criteria} {o : Option Paging}
    (h : r.Confined raw c) : Call.StaysWithin r raw ⟨r.name, operation, c, o⟩ := fun _ _ => h

theorem open_staysWithin {name : String} (h : name ≠ r.name) :
    Call.Open (Call.StaysWithin r raw) name := fun _ _ _ hname => absurd hname h

theorem name_ne_of_isRelative (ht : t.Sound) (hr : r ∈ t.resources) {name : String}
    (h : r.IsRelative t name) : name ≠ r.name := by
  obtain ⟨rank, hrank⟩ := ht.ranked
  rintro rfl
  rcases h with hparent | ⟨child, hchild, hparent⟩
  · exact Nat.lt_irrefl _ (hrank r hr r.name hparent)
  · obtain ⟨hmem, hname⟩ := Forest.mem_of_get? hchild
    have hlt := hrank child hmem r.name hparent
    rw [hname] at hlt
    exact Nat.lt_irrefl _ hlt

/-- What a handler asks of its own resource stays within the path. A list needs for that
that the path can be read; the handlers for one record have refused it otherwise. -/
theorem admitted_staysWithin (hc : Forest.ofConfig c = .ok t) (hbases : c.PlainBases)
    (h : Routed t request r raw task)
    (hread : task = .list → ∃ params, decodeParams raw = .ok params) :
    (request.inquiry r raw).Admitted t (Call.StaysWithin r raw) task := by
  have hr := mem_of_routed h
  have ht := Forest.sound_of_ofConfig hc
  have hrelatives : ∀ name, r.IsRelative t name → Call.Open (Call.StaysWithin r raw) name :=
    fun name hname => open_staysWithin (name_ne_of_isRelative ht hr hname)
  have hpath : ∀ params, decodeParams raw = .ok params →
      r.Confined raw (r.pathRestriction params) :=
    fun params => confined_of_pathRestriction hc hbases h
  cases task with
  | list =>
      intro c o hlisting
      have hconfined := confined_of_listing hc hbases h (hread rfl) hlisting
      exact ⟨staysWithin_of_confined hconfined, staysWithin_of_confined hconfined,
        fun name _ => hrelatives name⟩
  | create => exact fun _ hselects => by cases hselects
  | retrieve =>
      intro c o id hretrieval
      obtain ⟨params, hparams, rfl, -⟩ := Inquiry.retrieval_eq_ok hretrieval
      exact ⟨staysWithin_of_confined (hpath params hparams), fun name _ => hrelatives name⟩
  | update =>
      intro c changes hchange
      obtain ⟨params, hparams, rfl, -⟩ := Inquiry.change_eq_ok hchange
      exact staysWithin_of_confined (hpath params hparams)
  | delete =>
      intro c hremoval
      obtain ⟨params, hparams, rfl⟩ := Inquiry.removal_eq_ok hremoval
      have hconfined := hpath params hparams
      obtain ⟨rank, hrank⟩ := ht.ranked
      refine ⟨staysWithin_of_confined hconfined, fun _ => staysWithin_of_confined hconfined, rank,
        hrank, fun name hlower => open_staysWithin fun heq => ?_⟩
      exact Nat.lt_irrefl _ (heq ▸ hlower)

/-- Whatever has happened to the service before, everything that a request makes it ask of
its backend is admitted when what the handler asks is. -/
theorem since_of_admitted {σ ρ : Type} {b : Backend σ ρ} (ht : t.Sound) (about : About)
    {may : Call → Prop} (hcreate : ∀ name, may ⟨name, .create, none, none⟩)
    (h : Routed t request r raw task) (hadmitted : (request.inquiry r raw).Admitted t may task)
    {s : Service (Observed σ) (ObservedStore ρ)} (hs : Running b.observed t s) :
    ((respond b.observed about request).run s).2.state.Since s.state.calls may := by
  obtain ⟨htree, hwired⟩ := wired_of_running b.observed_labels ht hs
  have halike : Service.Alike ObservedStore.resource t
      (fun o u => o = u ∧ o.Since s.state.calls may) s s :=
    ⟨htree, htree, rfl, rfl, ⟨rfl, s.state.since_self may⟩, hwired⟩
  refine (respond_alike (b.observed_obeys s.state.calls may) hcreate ht about halike
    fun r' raw' task' h' => ?_).2.state.2
  obtain ⟨rfl, rfl, rfl⟩ := routed_unique h h'
  exact hadmitted

/-! ## Requests that succeed -/

theorem le_status (f : Failure) : 400 ≤ f.status := by
  cases f <;> simp [Failure.status]

theorem outcome_of_status {σ ρ : Type} {b : Backend σ ρ} {about : About} {s : Service σ ρ}
    (h : Routed s.tree request r raw task)
    (hstatus : ((respond b about request).run s).1.status < 400) :
    ∃ response s', ((request.inquiry r raw).perform b task).outcome s = (.ok response, s') ∧
      (respond b about request).run s = (request.presented response, s') := by
  cases hsize : request.announcesTooMuch with
  | true =>
      rw [respond_of_announcesTooMuch b about h hsize] at hstatus
      exact absurd hstatus (by simp [Response.tooLarge])
  | false =>
      rw [respond_of_routed b about h hsize] at hstatus ⊢
      rw [Request.status_presented] at hstatus
      simp only [answered] at hstatus ⊢
      rcases hx : ((request.inquiry r raw).perform b task).outcome s with ⟨_ | response, s'⟩
      · next f =>
          rw [hx] at hstatus
          exact absurd (le_status f) (Nat.not_le.mpr hstatus)
      · exact ⟨response, s', rfl, rfl⟩

/-! ## New records -/

def putParam (r : Resource) (params : Params) (record : Record) (name : String) : Record :=
  match params.lookup name with
  | some value => record.insert (r.fieldOf name) (.string value)
  | none => record

theorem placed_eq (record : Record) (params : Params) :
    (request.inquiry r raw).placed record params =
      r.ancestorParams.foldl (putParam r params) record := rfl

theorem get?_foldl_putParam_of_not_mem {params : Params} {names : List String} {field : String}
    (h : field ∉ names.map r.fieldOf) (record : Record) :
    (names.foldl (putParam r params) record).get? field = record.get? field := by
  induction names generalizing record with
  | nil => rfl
  | cons name names ih =>
      rw [List.map_cons, List.mem_cons, not_or] at h
      rw [List.foldl_cons, ih h.2, putParam]
      cases params.lookup name with
      | none => rfl
      | some value => exact (Record.get?_insert ..).trans (if_neg h.1)

/-- Parameters with fields of their own do not overwrite each other. -/
theorem get?_foldl_putParam {params : Params} {names : List String}
    (hfields : (names.map r.fieldOf).Nodup) {name value : String} (hname : name ∈ names)
    (hvalue : params.lookup name = some value) (record : Record) :
    (names.foldl (putParam r params) record).get? (r.fieldOf name) = some (.string value) := by
  induction names generalizing record with
  | nil => exact absurd hname List.not_mem_nil
  | cons first names ih =>
      rw [List.map_cons, List.nodup_cons] at hfields
      rw [List.foldl_cons]
      rcases List.mem_cons.mp hname with rfl | hname
      · rw [get?_foldl_putParam_of_not_mem hfields.1, putParam, hvalue]
        exact (Record.get?_insert ..).trans (if_pos rfl)
      · exact ih hfields.2 hname _

theorem encloses_of_creation (hc : Forest.ofConfig c = .ok t) (hbases : c.PlainBases)
    (h : Routed t request r raw .create) (hread : ∃ params, decodeParams raw = .ok params)
    (hapart : r.KeepsApart) {record : Record}
    (hrecord : (request.inquiry r raw).creation = .ok record) : r.Encloses raw record := by
  obtain ⟨params, hparams⟩ := hread
  obtain ⟨body, -, rfl⟩ := Inquiry.creation_eq_ok hrecord
  intro p hp
  obtain ⟨-, value, hvalue, hlookup⟩ := lookup_of_routed hc hbases h hparams p hp
  refine ⟨value, hvalue, ?_⟩
  rw [optionalParams_of_readable hparams, placed_eq]
  exact get?_foldl_putParam hapart.fields (mem_pathNames_of_routed hc hbases h p hp) hlookup body

theorem presented_of_create (h : Routed t request r raw .create) (response : Response) :
    request.presented response = response := by
  have hmethod := asks_of_routed h
  rw [Request.presented, if_neg fun hhead => ?_]
  rw [Request.effectiveMethod, if_pos hhead] at hmethod
  exact absurd (show "POST" = "GET" from hmethod) (by decide)

/-- A record that has been created was given to the store of the resource with the values
in the path. -/
theorem given_of_created {σ ρ : Type} {b : Backend σ ρ} {label : ρ → String} (about : About)
    (hlabel : b.Labels label) (hc : Forest.ofConfig c = .ok t) (hbases : c.PlainBases)
    (h : Routed t request r raw .create) (hread : ∃ params, decodeParams raw = .ok params)
    (hapart : r.KeepsApart) {s : Service σ ρ} (hs : Running b t s)
    (hstatus : ((respond b about request).run s).1.status = 201) :
    ∃ store given stored before, label store = r.name ∧ r.Encloses raw given ∧
      (b.add store given).outcome before =
        (.ok stored, ((respond b about request).run s).2.state) ∧
      ((respond b about request).run s).1 = .created (.object stored.fields) := by
  have ht := Forest.sound_of_ofConfig hc
  obtain ⟨htree, hwired⟩ := wired_of_running hlabel ht hs
  subst htree
  obtain ⟨response, s', hx, hresponse⟩ := outcome_of_status h (by rw [hstatus]; decide)
  obtain ⟨record, m, u, stored, added, hrecord, hm, hadd, rfl, rfl⟩ := Inquiry.create_eq_ok hx
  obtain ⟨given, before, hgiven, hstored⟩ := Attempt.outcome_bind_eq_ok.mp hadd
  have halike : Service.Alike label s.tree (fun s u => s = u) s s :=
    ⟨rfl, rfl, rfl, rfl, rfl, hwired⟩
  obtain ⟨hname, hmwired⟩ := (Inquiry.steward_respects (obeys_eq hlabel) (fun _ => trivial) ht
    (mem_of_routed h) s s halike).2.2 m (by rw [hm])
  have hencloses := encloses_of_creation hc hbases h hread hapart hrecord
  have hstore : label m.store = r.name := by
    rw [hmwired.label_store, hname]
    rfl
  refine ⟨m.store, given, stored, before, hstore, fun p hp => ?_, ?_, ?_⟩
  · obtain ⟨value, hvalue, hfield⟩ := hencloses p hp
    refine ⟨value, hvalue, ?_⟩
    rw [Steward.get?_of_stamp hgiven fun stamps hstamps => ?_, hfield]
    rw [hname] at hstamps
    exact hapart.stamps stamps hstamps p.1 (mem_pathNames_of_routed hc hbases h p hp)
  · rw [hresponse]
    exact hstored
  · rw [hresponse, presented_of_create h]

/-- A document that has been created is in its collection, with the values in the path. -/
theorem stored_of_created (about : About) (hc : Forest.ofConfig c = .ok t) (hbases : c.PlainBases)
    (h : Routed t request r raw .create) (hread : ∃ params, decodeParams raw = .ok params)
    (hapart : r.KeepsApart) {s : Service Archive DocumentStore} (hs : Running Archive.backend t s)
    (hstatus : ((respond Archive.backend about request).run s).1.status = 201) :
    ∃ stored, r.Encloses raw stored ∧
      stored ∈ (((respond Archive.backend about request).run s).2.state.collection r.name).records ∧
      ((respond Archive.backend about request).run s).1 = .created (.object stored.fields) := by
  obtain ⟨store, given, stored, before, hstore, hencloses, hadd, hresponse⟩ :=
    given_of_created about Archive.backend_labels hc hbases h hread hapart hs hstatus
  obtain ⟨hmem, hkept⟩ := DocumentStore.add_eq_ok hadd
  rw [hstore] at hmem
  refine ⟨stored, fun p hp => ?_, hmem, hresponse⟩
  obtain ⟨value, hvalue, hfield⟩ := hencloses p hp
  exact ⟨value, hvalue, hkept _ _ hfield rfl⟩

/-! ## Values that are no text -/

theorem exists_error_of_decode?_eq_none (h : ∃ p ∈ raw, Percent.decode? p.2 = none) :
    ∃ name, decodeParams raw = .error name := by
  cases hraw : decodeParams raw with
  | error name => exact ⟨name, rfl⟩
  | ok params =>
      obtain ⟨p, hp, hnone⟩ := h
      have hsome := decodeParams_isOk.mp ⟨params, hraw⟩ p hp
      rw [hnone] at hsome
      cases hsome

/-- For one record they are refused, with nothing stored looked at or changed. -/
theorem refused_of_unreadable (about : About) (h : Routed t request r raw task)
    (hraw : ∃ p ∈ raw, Percent.decode? p.2 = none) (hlist : task ≠ .list)
    (hcreate : task ≠ .create) :
    ∃ response : Response, 400 ≤ response.status ∧ response.status < 500 ∧
      ∀ (σ ρ : Type) (b : Backend σ ρ) (s : Service σ ρ), s.tree = t →
        (respond b about request).run s = (response, s) := by
  obtain ⟨name, hname⟩ := exists_error_of_decode?_eq_none hraw
  have hrequired : (request.inquiry r raw).requiredParams =
      .error (.badRequest ("Invalid URL: Invalid UTF-8 in `" ++ name ++ "`")) := by
    simp only [Inquiry.requiredParams, Request.inquiry, hname]
    rfl
  have hverdict : (request.inquiry r raw).verdict task =
      .error (.badRequest ("Invalid URL: Invalid UTF-8 in `" ++ name ++ "`")) := by
    cases task with
    | list => exact absurd rfl hlist
    | create => exact absurd rfl hcreate
    | retrieve => rw [Inquiry.verdict, Inquiry.retrieval, hrequired]; rfl
    | update => rw [Inquiry.verdict, Inquiry.change, hrequired]; rfl
    | delete => rw [Inquiry.verdict, Inquiry.removal, hrequired]; rfl
  refine ⟨request.refusal _, ?_, ?_, fun σ ρ b s hs =>
    respond_of_verdict_error b about h hverdict hs⟩ <;> rw [Request.status_refusal] <;>
    split <;> simp [Failure.status]

theorem optionalParams_of_unreadable (hraw : ∃ p ∈ raw, Percent.decode? p.2 = none) :
    (request.inquiry r raw).optionalParams = [] := by
  obtain ⟨name, hname⟩ := exists_error_of_decode?_eq_none hraw
  simp only [Inquiry.optionalParams, Request.inquiry, hname]

theorem pathRestriction_nil (r : Resource) : r.pathRestriction [] = none := by
  have hnone : ∀ name ∈ r.pathNames, (([] : Params).lookup name).map
      (fun v => Criteria.eq (r.fieldOf name) (.string v)) = none := fun _ _ => rfl
  rw [Resource.pathRestriction, Resource.pathFactors, List.filterMap_eq_nil_iff.mpr hnone]
  rfl

theorem foldl_putParam_nil (names : List String) (record : Record) :
    names.foldl (putParam r []) record = record := by
  induction names with
  | nil => rfl
  | cons name names ih => exact ih

theorem creation_of_unreadable (hraw : ∃ p ∈ raw, Percent.decode? p.2 = none) {record : Record}
    (h : (request.inquiry r raw).creation = .ok record) : request.record = .ok record := by
  obtain ⟨body, hbody, rfl⟩ := Inquiry.creation_eq_ok h
  rw [optionalParams_of_unreadable hraw, placed_eq, foldl_putParam_nil]
  exact hbody

/-- The steward of the resource is had by calls that come before all others. -/
theorem steward_since {σ ρ : Type} {b : Backend σ ρ} (ht : t.Sound)
    (h : Routed t request r raw task) {s u : Service (Observed σ) (ObservedStore ρ)}
    (hs : Running b.observed t s) {m : Steward (ObservedStore ρ)}
    (hm : ((request.inquiry r raw).steward b.observed).outcome s = (.ok m, u)) :
    m.resource = r ∧ m.Wired ObservedStore.resource t ∧
      ∃ before, u.state.calls = s.state.calls ++ before := by
  obtain ⟨htree, hwired⟩ := wired_of_running b.observed_labels ht hs
  have halike : Service.Alike ObservedStore.resource t
      (fun o u => o = u ∧ o.Since s.state.calls fun _ => True) s s :=
    ⟨htree, htree, rfl, rfl, ⟨rfl, s.state.since_self _⟩, hwired⟩
  obtain ⟨-, hafter, hsteward⟩ := Inquiry.steward_respects (i := request.inquiry r raw)
    (b.observed_obeys s.state.calls fun _ => True) (fun _ => trivial) ht (mem_of_routed h)
    s s halike
  obtain ⟨hname, hmwired⟩ := hsteward m (by rw [hm])
  rw [hm] at hafter
  obtain ⟨before, hbefore, -⟩ := hafter.state.2
  exact ⟨hname, hmwired, before, hbefore⟩

/-- A list that is answered is one of all that the query selects, in the whole resource. -/
theorem queried_of_unreadable {σ ρ : Type} {b : Backend σ ρ} (ht : t.Sound) (about : About)
    (h : Routed t request r raw .list) (hraw : ∃ p ∈ raw, Percent.decode? p.2 = none)
    {s : Service (Observed σ) (ObservedStore ρ)} (hs : Running b.observed t s)
    (hstatus : ((respond b.observed about request).run s).1.status = 200) :
    ∃ c o new, Criteria.withQuery none ((Target.read request.target).params.lookup "q") = .ok c ∧
      ((respond b.observed about request).run s).2.state.calls = s.state.calls ++ new ∧
      (⟨r.name, .query, c, some o⟩ : Call) ∈ new := by
  obtain ⟨htree, -⟩ := wired_of_running b.observed_labels ht hs
  subst htree
  obtain ⟨response, s', hx, hresponse⟩ := outcome_of_status h (by rw [hstatus]; decide)
  obtain ⟨c, o, m, u, records, queried, hlisting, hm, hquery, hlast⟩ := Inquiry.list_eq_ok hx
  -- making the steward adds calls, the query is the next one, and counting adds more
  obtain ⟨hname, hmwired, before, hbefore⟩ := steward_since ht h hs hm
  have hqueried := Steward.since_query b hmwired c o u.state
  rw [hquery, hname, hbefore] at hqueried
  have hlast : s'.state.Since (s.state.calls ++ before ++ [⟨r.name, .query, c, some o⟩])
      fun _ => True := by
    rcases hlast with rfl | ⟨total, counted, hcount, rfl⟩
    · exact hqueried
    · have hkept := (Attempt.respects_invariant.mp (Steward.count_respects
        (b.observed_obeys _ _) hmwired (c := c) trivial) queried hqueried).1
      rwa [hcount] at hkept
  obtain ⟨rest, hrest, -⟩ := hlast
  obtain ⟨hc, -⟩ := Inquiry.listing_eq_ok hlisting
  rw [optionalParams_of_unreadable hraw, pathRestriction_nil] at hc
  simp only [Request.inquiry] at hc
  refine ⟨c, o, before ++ [⟨r.name, .query, c, some o⟩] ++ rest, hc, ?_, ?_⟩
  · rw [hresponse, hrest]
    simp only [List.append_assoc]
  · simp

/-! ## Isolation -/

/-- The parameters in the path of a request are those of its resource. If the values are
text, all calls for the resource stay within the path, and so does a record that is
created. If they are not, requests for one record are refused before anything is asked of
a backend, whereas lists and new records are not restricted by the path at all. -/
theorem path_isolation (hc : Forest.ofConfig c = .ok t) (hbases : c.PlainBases) (about : About)
    (h : Routed t request r raw task) :
    raw.map (·.1) = task.pathNames r ∧
    ((∀ p ∈ raw, (Percent.decode? p.2).isSome) →
      (∀ (σ ρ : Type) (b : Backend σ ρ) (s : Service (Observed σ) (ObservedStore ρ)),
        Running b.observed t s → ((respond b.observed about request).run s).2.state.Since
          s.state.calls (Call.StaysWithin r raw)) ∧
      (task = .create → r.KeepsApart →
        (∀ (σ ρ : Type) (b : Backend σ ρ) (label : ρ → String) (s : Service σ ρ), b.Labels label →
          Running b t s → ((respond b about request).run s).1.status = 201 →
          ∃ store given stored before, label store = r.name ∧ r.Encloses raw given ∧
            (b.add store given).outcome before =
              (.ok stored, ((respond b about request).run s).2.state) ∧
            ((respond b about request).run s).1 = .created (.object stored.fields)) ∧
        ∀ s, Running Archive.backend t s →
          ((respond Archive.backend about request).run s).1.status = 201 →
          ∃ stored, r.Encloses raw stored ∧
            stored ∈ (((respond Archive.backend about request).run s).2.state.collection
              r.name).records ∧
            ((respond Archive.backend about request).run s).1 =
              .created (.object stored.fields))) ∧
    ((∃ p ∈ raw, Percent.decode? p.2 = none) →
      (task ≠ .list → task ≠ .create →
        ∃ response : Response, 400 ≤ response.status ∧ response.status < 500 ∧
          ∀ (σ ρ : Type) (b : Backend σ ρ) (s : Service σ ρ), s.tree = t →
            (respond b about request).run s = (response, s)) ∧
      (task = .list → ∀ (σ ρ : Type) (b : Backend σ ρ) (s : Service (Observed σ) (ObservedStore ρ)),
        Running b.observed t s → ((respond b.observed about request).run s).1.status = 200 →
        ∃ c o new,
          Criteria.withQuery none ((Target.read request.target).params.lookup "q") = .ok c ∧
          ((respond b.observed about request).run s).2.state.calls = s.state.calls ++ new ∧
          (⟨r.name, .query, c, some o⟩ : Call) ∈ new) ∧
      (task = .create → ∀ record, (request.inquiry r raw).creation = .ok record →
        request.record = .ok record)) := by
  have ht := Forest.sound_of_ofConfig hc
  refine ⟨names_of_routed hc hbases h, fun htext => ⟨fun σ ρ b s hs => ?_, ?_⟩,
    fun hraw => ⟨refused_of_unreadable about h hraw, ?_, ?_⟩⟩
  · exact since_of_admitted ht about (fun _ _ hselects => by cases hselects) h
      (admitted_staysWithin hc hbases h fun _ => decodeParams_isOk.mpr htext) hs
  · rintro rfl hapart
    have hread := decodeParams_isOk.mpr htext
    exact ⟨fun σ ρ b label s hlabel => given_of_created about hlabel hc hbases h hread hapart,
      fun s => stored_of_created about hc hbases h hread hapart⟩
  · rintro rfl σ ρ b s
    exact queried_of_unreadable ht about h hraw
  · rintro rfl record
    exact creation_of_unreadable hraw

/-! ## Logins of an account -/

def ownedLogins : Config where
  resources := [{ name := "accounts" }, { name := "auths", parent := some "accounts" }]

def ownedLogin : Resource := ownedLogins.place { name := "auths", parent := some "accounts" }

theorem ownedLogins_tree :
    Forest.ofConfig ownedLogins = .ok ⟨ownedLogins.resources.map ownedLogins.place⟩ :=
  Forest.ofConfig_of_check (by decide +kernel)

theorem ownedLogins_plainBases : ownedLogins.PlainBases := by
  intro r hr segment hsegment
  have hnone : ∀ r ∈ ownedLogins.resources,
      Config.nonEmptySegments (ownedLogins.basePathOf r) = [] := by decide +kernel
  rw [hnone r hr] at hsegment
  exact absurd hsegment List.not_mem_nil

def noRecords : Archive where
  supply := ⟨fun _ => 0, fun _ => default, 0, 0⟩

/-- The logins of an account whose key is no text are the logins of all accounts. -/
theorem unreadable_path_escapes :
    let t : Forest := ⟨ownedLogins.resources.map ownedLogins.place⟩
    let request : Request := { method := "GET", target := "/accounts/%FF/auths" }
    let s : Service (Observed Archive) (ObservedStore DocumentStore) :=
      { tree := t, state := { state := noRecords } }
    Forest.ofConfig ownedLogins = .ok t ∧ ownedLogins.PlainBases ∧
      Routed t request ownedLogin [("accountsId", "%FF")] .list ∧
      Running Archive.backend.observed t s ∧
      ((respond Archive.backend.observed { hostname := "" } request).run s).1.status = 200 ∧
      ¬ ((respond Archive.backend.observed { hostname := "" } request).run s).2.state.Since
        s.state.calls (Call.StaysWithin ownedLogin [("accountsId", "%FF")]) := by
  intro t request s
  have hrouted : Routed t request ownedLogin [("accountsId", "%FF")] .list :=
    .collection (by decide +kernel) (by decide +kernel)
  have hrunning : Running Archive.backend.observed t s := .fresh _
  have hstatus : ((respond Archive.backend.observed { hostname := "" } request).run s).1.status =
      200 := by decide +kernel
  have hunreadable : Percent.decode? "%FF" = none := by decide +kernel
  refine ⟨ownedLogins_tree, ownedLogins_plainBases, hrouted, hrunning, hstatus, ?_⟩
  rintro ⟨new, hnew, hwithin⟩
  obtain ⟨c, o, new', -, hnew', hquery⟩ := queried_of_unreadable
    (Forest.sound_of_ofConfig ownedLogins_tree) { hostname := "" } hrouted
    ⟨_, List.mem_singleton_self _, hunreadable⟩ hrunning hstatus
  rw [hnew'] at hnew
  rw [List.append_cancel_left hnew] at hquery
  obtain ⟨value, -, hvalue, -⟩ := hwithin _ hquery rfl rfl _ (List.mem_singleton_self _)
  rw [hunreadable] at hvalue
  cases hvalue

/-- A login that is created for an account belongs to it, whatever its body says. -/
theorem path_isolation_login :
    let t : Forest := ⟨ownedLogins.resources.map ownedLogins.place⟩
    let request : Request :=
      { method := "POST", target := "/accounts/a%2F1/auths",
        headers := [("content-type", "application/json")],
        body := "\x7b\"accountsId\":\"other\"\x7d" }
    let raw := [("accountsId", "a%2F1")]
    let s : Service Archive DocumentStore := { tree := t, state := noRecords }
    Forest.ofConfig ownedLogins = .ok t ∧ ownedLogins.PlainBases ∧
      Routed t request ownedLogin raw .create ∧ ownedLogin.KeepsApart ∧
      ((respond Archive.backend { hostname := "" } request).run s).1.status = 201 ∧
      ∃ stored, ownedLogin.Encloses raw stored ∧
        stored ∈ (((respond Archive.backend { hostname := "" } request).run s).2.state.collection
          "auths").records := by
  intro t request raw s
  have hrouted : Routed t request ownedLogin raw .create :=
    .collection (by decide +kernel) (by decide +kernel)
  have hapart : ownedLogin.KeepsApart := ⟨by decide +kernel, nofun⟩
  have hstatus : ((respond Archive.backend { hostname := "" } request).run s).1.status = 201 := by
    decide +kernel
  obtain ⟨-, hreadable, -⟩ := path_isolation ownedLogins_tree ownedLogins_plainBases
    { hostname := "" } hrouted
  obtain ⟨stored, hencloses, hmem, -⟩ :=
    ((hreadable (by decide +kernel)).2 rfl hapart).2 s (.fresh _) hstatus
  exact ⟨ownedLogins_tree, ownedLogins_plainBases, hrouted, hapart, hstatus, stored, hencloses,
    hmem⟩

end Http

end Grove
