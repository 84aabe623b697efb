import Grove.Proofs.Http.Routed
import Grove.Proofs.Resource.Forest

/-!
# The gate

Every handler first reads what it needs of the request and asks whether the caller may do
it, and only then goes to what is stored. Both make up the verdict on a request. It is a
function of the resource and the request, so a request that does not pass is answered
without a look at the state and without a change to it: no store is made for it, and
nothing is asked of a backend. Since that holds for every backend, it holds for one that
writes down what it is asked.
-/

namespace Grove.Http

namespace Inquiry

variable (i : Inquiry)

/-- The query text, if there is one, is a query. -/
def HasQuery : Prop :=
  ∀ text, ((i.query.lookup "q").map Text.trim).filter (· ≠ "") = some text →
    ∃ c, Query.parse text = .ok c

def HasPaging : Prop := ∃ options, Paging.ofParams i.query = .ok options

def HasPath : Prop := ∃ params, i.path = .ok params

def HasRecord : Prop := ∃ record, i.request.record = .ok record

/-- What the handler of a task reads of the request can be read. -/
def Legible : Task → Prop
  | .list => i.HasQuery ∧ i.HasPaging
  | .create => i.HasRecord
  | .retrieve => i.HasPath ∧ i.HasPaging
  | .update => i.HasPath ∧ i.HasRecord
  | .delete => i.HasPath

def asks : Task → String
  | .list | .retrieve => "GET"
  | .create => "POST"
  | .update => i.request.method
  | .delete => "DELETE"

/-- What the handler of a task says before it goes to what is stored. -/
def verdict : Task → Except Failure Unit
  | .list => i.listing.map fun _ => ()
  | .create => i.creation.map fun _ => ()
  | .retrieve => i.retrieval.map fun _ => ()
  | .update => i.change.map fun _ => ()
  | .delete => i.removal.map fun _ => ()

variable {i : Inquiry}

/-! ## What the parts of a verdict say -/

theorem withQuery_isOk (path : Option Criteria) :
    (∃ c, Criteria.withQuery path (i.query.lookup "q") = .ok c) ↔ i.HasQuery := by
  rw [HasQuery, Criteria.withQuery]
  cases ((i.query.lookup "q").map Text.trim).filter (· ≠ "") with
  | none => simp
  | some text => cases hparse : Query.parse text <;> simp [hparse]

theorem requiredParams_eq_ok {params : Params} :
    i.requiredParams = .ok params ↔ i.path = .ok params := by
  rw [requiredParams]
  cases i.path with
  | ok params => constructor <;> intro h <;> cases h <;> rfl
  | error name => exact ⟨nofun, nofun⟩

theorem permit_eq_ok {method : String} (h : i.permit method = .ok ()) :
    i.resource.access.admits i.caller method = true := by
  rw [permit] at h
  split at h
  · assumption
  · cases h

theorem permit_eq_forbidden {method : String}
    (h : i.resource.access.admits i.caller method = false) :
    i.permit method = .error .forbidden := by
  rw [permit, h]
  rfl

theorem listing_eq_ok {c : Option Criteria} {o : Paging} (h : i.listing = .ok (c, o)) :
    Criteria.withQuery (i.resource.pathRestriction i.optionalParams) (i.query.lookup "q") = .ok c ∧
      Paging.ofParams i.query = .ok o ∧ i.resource.access.admits i.caller "GET" = true := by
  obtain ⟨c, hc, h⟩ := bind_eq_ok.mp h
  obtain ⟨o, ho, h⟩ := bind_eq_ok.mp h
  obtain ⟨⟨⟩, hpermit, h⟩ := bind_eq_ok.mp h
  cases h
  exact ⟨hc, ho, permit_eq_ok hpermit⟩

theorem retrieval_eq_ok {c : Option Criteria} {o : Paging} {id : String}
    (h : i.retrieval = .ok (c, o, id)) :
    ∃ params, i.path = .ok params ∧ c = i.resource.pathRestriction params ∧
      Paging.ofParams i.query = .ok o ∧ i.resource.access.admits i.caller "GET" = true := by
  obtain ⟨params, hparams, h⟩ := bind_eq_ok.mp h
  obtain ⟨o, ho, h⟩ := bind_eq_ok.mp h
  obtain ⟨⟨⟩, hpermit, h⟩ := bind_eq_ok.mp h
  cases h
  exact ⟨params, requiredParams_eq_ok.mp hparams, rfl, ho, permit_eq_ok hpermit⟩

theorem creation_eq_ok {record : Record} (h : i.creation = .ok record) :
    ∃ body, i.request.record = .ok body ∧ record = i.placed body i.optionalParams := by
  obtain ⟨body, hbody, h⟩ := bind_eq_ok.mp h
  obtain ⟨⟨⟩, -, h⟩ := bind_eq_ok.mp h
  cases h
  exact ⟨body, hbody, rfl⟩

theorem change_eq_ok {c : Option Criteria} {changes : Record} (h : i.change = .ok (c, changes)) :
    ∃ params, i.path = .ok params ∧ c = i.resource.pathRestriction params ∧
      i.request.record = .ok changes := by
  obtain ⟨params, hparams, h⟩ := bind_eq_ok.mp h
  obtain ⟨record, hrecord, h⟩ := bind_eq_ok.mp h
  obtain ⟨⟨⟩, -, h⟩ := bind_eq_ok.mp h
  cases h
  exact ⟨params, requiredParams_eq_ok.mp hparams, rfl, hrecord⟩

theorem removal_eq_ok {c : Option Criteria} (h : i.removal = .ok c) :
    ∃ params, i.path = .ok params ∧ c = i.resource.pathRestriction params := by
  obtain ⟨params, hparams, h⟩ := bind_eq_ok.mp h
  obtain ⟨⟨⟩, -, h⟩ := bind_eq_ok.mp h
  cases h
  exact ⟨params, requiredParams_eq_ok.mp hparams, rfl⟩

/-- Of a request that can be read the verdict is whether the caller may use the method. -/
theorem verdict_of_legible {task : Task} (h : i.Legible task) :
    i.verdict task = i.permit (i.asks task) := by
  have hdone : ∀ {α : Type} (method : String) (a : α),
      (i.permit method >>= fun _ => pure a).map (fun _ => ()) = i.permit method := by
    intro α method a
    cases i.permit method <;> rfl
  cases task with
  | list =>
      obtain ⟨hquery, options, hoptions⟩ := h
      obtain ⟨c, hc⟩ := (withQuery_isOk (i.resource.pathRestriction i.optionalParams)).mpr hquery
      rw [verdict, listing, hc, hoptions]
      exact hdone "GET" (c, options)
  | create =>
      obtain ⟨record, hrecord⟩ := h
      rw [verdict, creation, hrecord]
      exact hdone "POST" (i.placed record i.optionalParams)
  | retrieve =>
      obtain ⟨⟨params, hpath⟩, options, hoptions⟩ := h
      rw [verdict, retrieval, requiredParams_eq_ok.mpr hpath, hoptions]
      exact hdone "GET" _
  | update =>
      obtain ⟨⟨params, hpath⟩, record, hrecord⟩ := h
      rw [verdict, change, requiredParams_eq_ok.mpr hpath, hrecord]
      exact hdone i.request.method _
  | delete =>
      obtain ⟨params, hpath⟩ := h
      rw [verdict, removal, requiredParams_eq_ok.mpr hpath]
      exact hdone "DELETE" _

theorem legible_of_verdict {task : Task} (h : i.verdict task = .ok ()) : i.Legible task := by
  cases task with
  | list =>
      obtain ⟨⟨c, o⟩, h, -⟩ := map_eq_ok.mp h
      obtain ⟨hc, ho, -⟩ := listing_eq_ok h
      exact ⟨(withQuery_isOk _).mp ⟨c, hc⟩, o, ho⟩
  | create =>
      obtain ⟨_, h, -⟩ := map_eq_ok.mp h
      obtain ⟨body, hbody, -⟩ := creation_eq_ok h
      exact ⟨body, hbody⟩
  | retrieve =>
      obtain ⟨⟨c, o, id⟩, h, -⟩ := map_eq_ok.mp h
      obtain ⟨params, hparams, -, ho, -⟩ := retrieval_eq_ok h
      exact ⟨⟨params, hparams⟩, o, ho⟩
  | update =>
      obtain ⟨⟨c, changes⟩, h, -⟩ := map_eq_ok.mp h
      obtain ⟨params, hparams, -, hrecord⟩ := change_eq_ok h
      exact ⟨⟨params, hparams⟩, changes, hrecord⟩
  | delete =>
      obtain ⟨_, h, -⟩ := map_eq_ok.mp h
      obtain ⟨params, hparams, -⟩ := removal_eq_ok h
      exact ⟨params, hparams⟩

/-- What does not pass is refused, and only callers that may not use the method are
forbidden what can be read. -/
theorem verdict_eq_error {task : Task}
    (h : ¬ i.Legible task ∨ i.resource.access.admits i.caller (i.asks task) = false) :
    ∃ f, i.verdict task = .error f ∧ (i.Legible task → f = .forbidden) := by
  by_cases hlegible : i.Legible task
  · have hdenied := h.resolve_left (not_not_intro hlegible)
    exact ⟨.forbidden, by rw [verdict_of_legible hlegible, permit_eq_forbidden hdenied],
      fun _ => rfl⟩
  · cases hverdict : i.verdict task with
    | ok => exact absurd (legible_of_verdict hverdict) hlegible
    | error f => exact ⟨f, rfl, fun hl => absurd hl hlegible⟩

variable {σ ρ : Type}

theorem outcome_of_error {α β : Type} {first : Except Failure α} {f : Failure}
    (h : first.map (fun _ => ()) = .error f) (next : α → Attempt (Service σ ρ) β)
    (s : Service σ ρ) : (liftM first >>= next).outcome s = (.error f, s) := by
  rw [Attempt.outcome_bind, Attempt.outcome_liftM]
  cases first with
  | ok a => cases h
  | error e => cases h; rfl

theorem perform_of_verdict_error (b : Backend σ ρ) {task : Task} {f : Failure}
    (h : i.verdict task = .error f) (s : Service σ ρ) :
    (i.perform b task).outcome s = (.error f, s) := by
  cases task with
  | list | create | retrieve | update | delete => exact outcome_of_error h _ s

end Inquiry

variable {t : Forest} {request : Request} {r : Resource} {raw : List (String × String)}
  {task : Task}

theorem method_of_effectiveMethod {method : String} (h : request.effectiveMethod = method)
    (hget : method ≠ "GET") : request.method = request.effectiveMethod := by
  rw [Request.effectiveMethod] at h ⊢
  split at h
  · exact absurd h.symm hget
  · next hhead => rw [if_neg hhead]

/-- The handler asks leave for the method of the request. -/
theorem asks_of_routed (h : Routed t request r raw task) :
    (request.inquiry r raw).asks task = request.effectiveMethod := by
  cases h with
  | collection route method =>
      unfold Task.ofCollection? at method
      split at method <;> cases method <;> exact Eq.symm ‹_›
  | item route method =>
      unfold Task.ofItem? at method
      split at method
      · next hget => cases method; exact hget.symm
      · next hput => cases method; exact method_of_effectiveMethod hput (by decide)
      · next hpatch => cases method; exact method_of_effectiveMethod hpatch (by decide)
      · next hdelete => cases method; exact hdelete.symm
      · cases method

def Request.refusal (request : Request) (f : Failure) : Response :=
  if request.announcesTooMuch then .tooLarge else request.presented (.ofFailure f)

theorem Request.status_refusal (request : Request) (f : Failure) :
    (request.refusal f).status = if request.announcesTooMuch then 413 else f.status := by
  rw [refusal]
  split
  · rfl
  · rw [status_presented]
    rfl

theorem respond_of_verdict_error {σ ρ : Type} (b : Backend σ ρ) (about : About)
    (h : Routed t request r raw task) {f : Failure}
    (hverdict : (request.inquiry r raw).verdict task = .error f) {s : Service σ ρ}
    (hs : s.tree = t) : (respond b about request).run s = (request.refusal f, s) := by
  subst hs
  rw [Request.refusal]
  cases hsize : request.announcesTooMuch with
  | true => exact respond_of_announcesTooMuch b about h hsize
  | false =>
      rw [respond_of_routed b about h hsize, answered, Inquiry.perform_of_verdict_error b hverdict]
      rfl

/-- A request that cannot be read, or whose caller may not use the method, is answered
alike whatever is stored and leaves everything as it was: no store is made and no call
reaches the backend, whichever it is. If only the caller is at fault the answer is 403. -/
theorem refused_unseen (about : About) (h : Routed t request r raw task)
    (hrefused : ¬ (request.inquiry r raw).Legible task ∨
      r.access.admits request.headers.principal? request.effectiveMethod = false) :
    ∃ response : Response,
      ((request.inquiry r raw).Legible task → request.announcesTooMuch = false →
        response.status = 403) ∧
      ∀ (σ ρ : Type) (b : Backend σ ρ) (s : Service σ ρ), s.tree = t →
        (respond b about request).run s = (response, s) := by
  rw [← asks_of_routed h] at hrefused
  obtain ⟨f, hverdict, hforbidden⟩ := Inquiry.verdict_eq_error hrefused
  refine ⟨request.refusal f, fun hlegible hsize => ?_, fun σ ρ b s hs =>
    respond_of_verdict_error b about h hverdict hs⟩
  rw [Request.status_refusal, hsize, hforbidden hlegible]
  rfl

/-- Nobody may delete a note where deleting is guarded and no role may do it. -/
theorem refused_unseen_guardedNote :
    let notes : ResourceEntry :=
      { name := "notes", access := { strategies := [("delete", "roles")], rules := [] } }
    let c : Config := { resources := [notes] }
    let request : Request :=
      { method := "DELETE", target := "/notes/7?x=1", headers := [("x-roles", "admin")] }
    ∃ t raw, Forest.ofConfig c = .ok t ∧ Routed t request (c.place notes) raw .delete ∧
      (c.place notes).access.admits request.headers.principal? request.effectiveMethod = false ∧
      ∃ response : Response, response.status = 403 ∧
        ∀ (σ ρ : Type) (b : Backend σ ρ) (s : Service σ ρ), s.tree = t →
          (respond b { hostname := "" } request).run s = (response, s) := by
  intro notes c request
  have hroute : Routed ⟨[c.place notes]⟩ request (c.place notes) [("notesId", "7")] .delete :=
    .item (by decide +kernel) (by decide +kernel)
  have hdenied : (c.place notes).access.admits request.headers.principal? request.effectiveMethod =
      false := by decide +kernel
  obtain ⟨response, hstatus, hsame⟩ := refused_unseen { hostname := "" } hroute (.inr hdenied)
  exact ⟨_, _, Forest.ofConfig_of_check (by decide +kernel), hroute, hdenied, response,
    hstatus ⟨_, rfl⟩ (by decide +kernel), hsame⟩

end Grove.Http
