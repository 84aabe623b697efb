import Grove.Http.Handler

/-!
# Answering requests

The service has a route for the collection and one for the records of every resource, and
two routes that tell that it lives and what it is. Only bodies for resources are limited.
A request with the method `HEAD` is answered like one with `GET`, without the content.
-/

namespace Grove.Http

structure About where
  name : String := "resource-sdk"
  version : String := "0.1.0"
  hostname : String

inductive Endpoint where
  | health
  | info
  | collection (r : Resource)
  | item (r : Resource)
deriving DecidableEq, Inhabited

namespace Endpoint

def isResource : Endpoint → Bool
  | collection _ | item _ => true
  | health | info => false

def ofResource (r : Resource) : List (Route × Endpoint) :=
  [(Route.read (routePattern r.collectionPath), .collection r),
    (Route.read (routePattern r.recordPath), .item r)]

def routes (t : Forest) : List (Route × Endpoint) :=
  (Route.read "/health", .health) :: (Route.read "/info", .info) :: t.resources.flatMap ofResource

end Endpoint

namespace About

def health : Json := Json.ofFields [("status", .string "ok")]

def info (a : About) : Json := Json.ofFields [
  ("name", .string a.name), ("version", .string a.version), ("hostname", .string a.hostname)]

end About

variable {σ ρ : Type}

def answered (x : Attempt (Service σ ρ) Response) : StateM (Service σ ρ) Response := fun s =>
  match x.outcome s with
  | (.ok response, s) => (response, s)
  | (.error f, s) => (.ofFailure f, s)

def handler? (b : Backend σ ρ) (about : About) (endpoint : Endpoint) (method : String)
    (inquiry : Resource → Inquiry) : Option (Attempt (Service σ ρ) Response) :=
  match endpoint, method with
  | .health, "GET" => some (return .ok About.health)
  | .info, "GET" => some (return .ok about.info)
  | .collection r, "GET" => some ((inquiry r).list b)
  | .collection r, "POST" => some ((inquiry r).create b)
  | .item r, "GET" => some ((inquiry r).fetchOne b)
  | .item r, "PUT" | .item r, "PATCH" => some ((inquiry r).update b)
  | .item r, "DELETE" => some ((inquiry r).delete b)
  | _, _ => none

def respondAt (b : Backend σ ρ) (about : About) (request : Request) (endpoint : Endpoint)
    (inquiry : Resource → Inquiry) : StateM (Service σ ρ) Response := do
  let isHead := request.method = "HEAD"
  match handler? b about endpoint (if isHead then "GET" else request.method) inquiry with
  | none => return .methodNotAllowed
  | some attempt =>
    let response ← answered attempt
    return if isHead then response.withoutContent else response

def respond (b : Backend σ ρ) (about : About) (request : Request) :
    StateM (Service σ ρ) Response := do
  let target := Target.read request.target
  let found := findRoute (Endpoint.routes (← get).tree) target.path
  let limited := match found with
    | some (endpoint, _) => endpoint.isResource
    | none => true
  if limited && request.announcesTooMuch then return .tooLarge
  match found with
  | none => return .notFound
  | some (endpoint, raw) =>
    respondAt b about request endpoint fun resource =>
      { resource, request, path := decodeParams raw, query := target.params }

end Grove.Http
