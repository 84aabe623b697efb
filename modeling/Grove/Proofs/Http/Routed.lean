import Grove.Http.Server
import Grove.Proofs.Outcome

/-!
# Requests that reach a handler

`Routed` says which of the five handlers a request comes to and what the parameters of the
route take from its path. From there on nothing depends on addresses: the request is
answered with what comes of the handler (`respond_of_routed`), unless it announces a body
that is too large. Requests that are not routed so are answered without a look at what is
stored.
-/

namespace Grove.Http

inductive Task where
  | list | create | retrieve | update | delete
deriving DecidableEq

def Task.ofCollection? : String → Option Task
  | "GET" => some .list
  | "POST" => some .create
  | _ => none

def Task.ofItem? : String → Option Task
  | "GET" => some .retrieve
  | "PUT" | "PATCH" => some .update
  | "DELETE" => some .delete
  | _ => none

namespace Request

def effectiveMethod (request : Request) : String :=
  if request.method = "HEAD" then "GET" else request.method

def presented (request : Request) (response : Response) : Response :=
  if request.method = "HEAD" then response.withoutContent else response

@[simp] theorem status_presented (request : Request) (response : Response) :
    (request.presented response).status = response.status := by
  rw [presented]
  split <;> rfl

def inquiry (request : Request) (resource : Resource) (raw : List (String × String)) : Inquiry where
  resource := resource
  request := request
  path := decodeParams raw
  query := (Target.read request.target).params

end Request

def Response.sent (r : Response) : String :=
  match r.content with
  | .json v => v.compact
  | .text s => s
  | .empty => ""

/-- The request is routed to the handler of a task for a resource, and the parameters of
the route take `raw` from its path. -/
inductive Routed (t : Forest) (request : Request) (r : Resource) (raw : List (String × String)) :
    Task → Prop
  | collection {task : Task}
      (route : findRoute (Endpoint.routes t) (Target.read request.target).path =
        some (.collection r, raw))
      (method : Task.ofCollection? request.effectiveMethod = some task) :
      Routed t request r raw task
  | item {task : Task}
      (route : findRoute (Endpoint.routes t) (Target.read request.target).path =
        some (.item r, raw))
      (method : Task.ofItem? request.effectiveMethod = some task) : Routed t request r raw task

variable {σ ρ : Type}

def Inquiry.perform (b : Backend σ ρ) (i : Inquiry) : Task → Attempt (Service σ ρ) Response
  | .list => i.list b
  | .create => i.create b
  | .retrieve => i.fetchOne b
  | .update => i.update b
  | .delete => i.delete b

theorem handler?_collection (b : Backend σ ρ) (about : About) (r : Resource) (method : String)
    (inquiry : Resource → Inquiry) :
    handler? b about (.collection r) method inquiry =
      (Task.ofCollection? method).map ((inquiry r).perform b) := by
  unfold Task.ofCollection?
  split
  · rfl
  · rfl
  · next hget hpost =>
      unfold handler?
      split <;> simp_all

theorem handler?_item (b : Backend σ ρ) (about : About) (r : Resource) (method : String)
    (inquiry : Resource → Inquiry) :
    handler? b about (.item r) method inquiry =
      (Task.ofItem? method).map ((inquiry r).perform b) := by
  unfold Task.ofItem?
  split
  · rfl
  · rfl
  · rfl
  · rfl
  · next hget hput hpatch hdelete =>
      unfold handler?
      split <;> simp_all

/-- What is no resource is answered without a look at the state. -/
theorem handler?_own {b : Backend σ ρ} {about : About} {endpoint : Endpoint}
    (hown : endpoint.isResource = false) {method : String} {inquiry : Resource → Inquiry}
    {x : Attempt (Service σ ρ) Response} (hx : handler? b about endpoint method inquiry = some x) :
    ∃ response, x = pure response := by
  unfold handler? at hx
  split at hx
  · exact ⟨_, (Option.some.inj hx).symm⟩
  · exact ⟨_, (Option.some.inj hx).symm⟩
  all_goals first | cases hown | cases hx

theorem run_respond (b : Backend σ ρ) (about : About) (request : Request) (s : Service σ ρ) :
    (respond b about request).run s =
      match findRoute (Endpoint.routes s.tree) (Target.read request.target).path with
      | none => (if request.announcesTooMuch then .tooLarge else .notFound, s)
      | some (endpoint, raw) =>
        if endpoint.isResource && request.announcesTooMuch then (.tooLarge, s)
        else (respondAt b about request endpoint fun r => request.inquiry r raw).run s := by
  simp only [respond, bind, StateT.bind, StateT.run, get, getThe, MonadStateOf.get, StateT.get,
    pure]
  cases findRoute (Endpoint.routes s.tree) (Target.read request.target).path with
  | none => cases request.announcesTooMuch <;> rfl
  | some found => cases hlarge : found.1.isResource && request.announcesTooMuch <;>
      simp only [hlarge] <;> rfl

theorem run_respondAt (b : Backend σ ρ) (about : About) (request : Request) (endpoint : Endpoint)
    (inquiry : Resource → Inquiry) (s : Service σ ρ) :
    (respondAt b about request endpoint inquiry).run s =
      match handler? b about endpoint request.effectiveMethod inquiry with
      | none => (.methodNotAllowed, s)
      | some attempt => (request.presented (answered attempt s).1, (answered attempt s).2) := by
  simp only [respondAt, Request.effectiveMethod, Request.presented, bind, StateT.run, pure]
  by_cases hhead : request.method = "HEAD" <;> simp only [hhead, if_true, if_false] <;>
    cases handler? b about endpoint _ inquiry <;> rfl

variable {t : Forest} {request : Request} {r : Resource} {raw : List (String × String)}
  {task : Task}

theorem respond_of_announcesTooMuch (b : Backend σ ρ) (about : About) {s : Service σ ρ}
    (h : Routed s.tree request r raw task) (hlarge : request.announcesTooMuch = true) :
    (respond b about request).run s = (.tooLarge, s) := by
  cases h with
  | collection route method => simp only [run_respond, route, hlarge]; rfl
  | item route method => simp only [run_respond, route, hlarge]; rfl

theorem respond_of_routed (b : Backend σ ρ) (about : About) {s : Service σ ρ}
    (h : Routed s.tree request r raw task) (hsize : request.announcesTooMuch = false) :
    (respond b about request).run s =
      (request.presented (answered ((request.inquiry r raw).perform b task) s).1,
        (answered ((request.inquiry r raw).perform b task) s).2) := by
  cases h with
  | collection route method =>
      simp only [run_respond, route, hsize, Bool.and_false, run_respondAt, handler?_collection,
        method]
      rfl
  | item route method =>
      simp only [run_respond, route, hsize, Bool.and_false, run_respondAt, handler?_item, method]
      rfl

/-! ## Where routes lead -/

theorem foldl_choice_mem {α : Type} (better : α → α → Bool) (first : α) (rest : List α) :
    rest.foldl (fun best a => if better best a then a else best) first ∈ first :: rest := by
  induction rest generalizing first with
  | nil => exact List.mem_singleton_self _
  | cons a rest ih =>
      rw [List.foldl_cons]
      split
      · exact List.mem_cons_of_mem _ (ih a)
      · rcases List.mem_cons.mp (ih first) with heq | hmem
        · rw [heq]
          exact List.mem_cons_self
        · exact List.mem_cons_of_mem _ (List.mem_cons_of_mem _ hmem)

theorem findRoute_eq_some {α : Type} {routes : List (Route × α)} {path : String} {a : α}
    {raw : List (String × String)} (h : findRoute routes path = some (a, raw)) :
    ∃ route, (route, a) ∈ routes ∧ route.takes? (Text.split '/' path) = some raw := by
  simp only [findRoute] at h
  split at h
  · cases h
  · next first rest hfitting =>
      have hmem := foldl_choice_mem (fun best r : Route × α × List (String × String) =>
        r.1.precedes best.1) first rest
      rw [← hfitting] at hmem
      obtain ⟨⟨route, a'⟩, hroute, hfits⟩ := List.mem_filterMap.mp hmem
      obtain ⟨raw', htakes, heq⟩ := Option.map_eq_some_iff.mp hfits
      have hfound := Option.some.inj h
      rw [← heq] at hfound
      cases hfound
      exact ⟨route, hroute, htakes⟩

theorem mem_routes {t : Forest} {route : Route} {endpoint : Endpoint}
    (h : (route, endpoint) ∈ Endpoint.routes t) (hresource : endpoint.isResource = true) :
    ∃ r ∈ t.resources,
      (endpoint = .collection r ∧ route = Route.read (routePattern r.collectionPath)) ∨
      (endpoint = .item r ∧ route = Route.read (routePattern r.recordPath)) := by
  simp only [Endpoint.routes, List.mem_cons, Prod.mk.injEq, List.mem_flatMap, Endpoint.ofResource,
    List.not_mem_nil, or_false] at h
  rcases h with ⟨-, rfl⟩ | ⟨-, rfl⟩ | ⟨r, hr, ⟨rfl, rfl⟩ | ⟨rfl, rfl⟩⟩
  · cases hresource
  · cases hresource
  · exact ⟨r, hr, .inl ⟨rfl, rfl⟩⟩
  · exact ⟨r, hr, .inr ⟨rfl, rfl⟩⟩

theorem mem_of_routed (h : Routed t request r raw task) : r ∈ t.resources := by
  cases h with
  | collection route method =>
      obtain ⟨_, hmem, -⟩ := findRoute_eq_some route
      obtain ⟨r', hr', ⟨heq, -⟩ | ⟨heq, -⟩⟩ := mem_routes hmem rfl <;> cases heq
      exact hr'
  | item route method =>
      obtain ⟨_, hmem, -⟩ := findRoute_eq_some route
      obtain ⟨r', hr', ⟨heq, -⟩ | ⟨heq, -⟩⟩ := mem_routes hmem rfl <;> cases heq
      exact hr'

end Grove.Http
