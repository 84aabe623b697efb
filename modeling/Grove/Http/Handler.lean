import Grove.Criteria.Wire
import Grove.Http.Body
import Grove.Http.Route
import Grove.Service

/-!
# Handling requests for resources

A request for the collection or for one record of a resource is handled in two steps. The
first one reads everything that the request says and asks whether the caller may do it;
it does not know what is stored. Only if it lets the request pass does the second step
go to the steward of the resource.
-/

namespace Grove.Http

structure Inquiry where
  resource : Resource
  request : Request
  /-- The parameters of the path, or the name of one that is no text. -/
  path : Except String Params
  query : Params

namespace Inquiry

variable (i : Inquiry)

def caller : Option Principal := i.request.headers.principal?

def requiredParams : Except Failure Params :=
  i.path.mapError fun name => .badRequest ("Invalid URL: Invalid UTF-8 in `" ++ name ++ "`")

/-- The parameters of the path where they may be missing. If one is no text there are
none. -/
def optionalParams : Params :=
  match i.path with
  | .ok params => params
  | .error _ => []

def permit (method : String) : Except Failure Unit :=
  if i.resource.access.admits i.caller method then .ok () else .error .forbidden

/-! ## What requests ask for -/

def listing : Except Failure (Option Criteria × Paging) := do
  let criteria ←
    Criteria.withQuery (i.resource.pathRestriction i.optionalParams) (i.query.lookup "q")
  let options ← Paging.ofParams i.query
  i.permit "GET"
  return (criteria, options)

/-- What a request for one record asks for: the criteria, the options and the text that
names the record. -/
def retrieval : Except Failure (Option Criteria × Paging × String) := do
  let params ← i.requiredParams
  let options ← Paging.ofParams i.query
  i.permit "GET"
  return (i.resource.pathRestriction params, options,
    (params.lookup i.resource.ownParam).getD "")

/-- The record with the parameters of the path in the fields that they constrain. -/
def placed (record : Record) (params : Params) : Record :=
  i.resource.ancestorParams.foldl (fun record name =>
    match params.lookup name with
    | some value => record.insert (i.resource.fieldOf name) (.string value)
    | none => record) record

/-- The record that a request asks to be stored. -/
def creation : Except Failure Record := do
  let record ← i.request.record
  i.permit "POST"
  return i.placed record i.optionalParams

/-- The records that a request asks to be changed, and the changes. -/
def change : Except Failure (Option Criteria × Record) := do
  let params ← i.requiredParams
  let changes ← i.request.record
  i.permit i.request.method
  return (i.resource.pathRestriction params, changes)

/-- The records that a request asks to be removed. -/
def removal : Except Failure (Option Criteria) := do
  let params ← i.requiredParams
  i.permit "DELETE"
  return i.resource.pathRestriction params

end Inquiry

/-! ## Answers -/

def pageEnvelope (criteria : Option Criteria) (options : Paging) (total : Nat)
    (documents : Json) : Json :=
  Json.ofFields [
    ("criteria", criteria.elim .null Criteria.toJson),
    ("page", options.page.elim .null Json.ofNat),
    ("offset", .ofNat options.window.offset),
    ("limit", .ofNat options.window.limit),
    ("totalHits", .ofNat total),
    ("documents", documents)]

def countEnvelope (count : Nat) : Json := Json.ofFields [("count", .ofNat count)]

namespace Inquiry

variable {σ ρ : Type} (b : Backend σ ρ) (i : Inquiry)

def steward : Attempt (Service σ ρ) (Steward ρ) := Service.steward b i.resource.name

def list : Attempt (Service σ ρ) Response := do
  let (criteria, options) ← i.listing
  let m ← i.steward b
  let records ← Service.onBackend (m.query b criteria options)
  let documents := Json.array (records.map fun r => .object r.fields)
  if !wantsEnvelope i.query then return .ok documents
  let total ← Service.onBackend (m.count b criteria)
  return .ok (pageEnvelope criteria options total documents)

def fetchOne : Attempt (Service σ ρ) Response := do
  let (criteria, options, id) ← i.retrieval
  let m ← i.steward b
  match ← Service.onBackend (m.find b criteria) with
  | none => throw (.notFound id)
  | some record =>
    let record ← Service.onBackend (m.attach b record options.fetch)
    return .ok (.object record.fields)

def create : Attempt (Service σ ρ) Response := do
  let record ← i.creation
  let m ← i.steward b
  let stored ← Service.onBackend (m.add b record)
  return .created (.object stored.fields)

def update : Attempt (Service σ ρ) Response := do
  let (criteria, changes) ← i.change
  let m ← i.steward b
  return .ok (countEnvelope (← Service.onBackend (m.update b criteria changes)))

def delete : Attempt (Service σ ρ) Response := do
  let criteria ← i.removal
  let m ← i.steward b
  return .ok (countEnvelope (← Service.onBackend (m.remove b criteria)))

end Inquiry

end Grove.Http
