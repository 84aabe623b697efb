import Grove.Criteria.Token
import Grove.Json.Printer

/-!
# Failures

Why an operation of the service fails, from a configuration that cannot be used to a
record that is not there. The cause decides the sentence that explains it, and the sort
of failure decides the status and the codes of the answer to a request.
-/

namespace Grove

/-- What is wrong with a configuration or a setting. -/
inductive Invalid where
  | blankName
  | notASegment (name : String)
  | emptyPrimaryKey (resource : String)
  | unknownMethod (resource method : String)
  | unknownBackend (name : String)
  | notANumber (setting value : String)
  | backendWithoutUrl
  | urlMissing
  | urlWithoutPath
  | badUrl (reason : String)
  | other (problem : String)
deriving DecidableEq

inductive Referent where
  | resource
  | parentResource
deriving DecidableEq

inductive ConfigProblem where
  | missingReference (kind : Referent) (id : String)
  | duplicateResource (name : String)
  | cycle (name : String)
  | load (reason : String)
  | validation (problem : Invalid)
deriving DecidableEq

inductive Failure where
  | config (e : ConfigProblem)
  | malformedCriteria (reason : String)
  | badRequest (reason : String)
  | unsupportedMediaType (reason : String)
  | payloadTooLarge (reason : String)
  | forbidden
  | notFound (id : String)
  | conflict (reason : String)
  | internal (reason : String)
deriving DecidableEq, Inhabited

def Invalid.message : Invalid → String
  | .blankName => "resource name must not be empty"
  | .notASegment name => "resource name '" ++ name ++ "' is not a path segment"
  | .emptyPrimaryKey resource => "resource '" ++ resource ++ "' has an empty primary key"
  | .unknownMethod resource method =>
    "resource '" ++ resource ++ "': unknown method '" ++ method ++ "' in auth strategies"
  | .unknownBackend name => "unknown STORAGE_BACKEND '" ++ name ++ "'"
  | .notANumber setting value => setting ++ " must be a number, got '" ++ value ++ "'"
  | .backendWithoutUrl => "DATABASE_URL is required for the postgres backend"
  | .urlMissing => "DATABASE_URL is not set"
  | .urlWithoutPath => "DATABASE_URL: no database path"
  | .badUrl reason => "invalid DATABASE_URL: " ++ reason
  | .other problem => problem

def Referent.text : Referent → String
  | .resource => "resource"
  | .parentResource => "parent resource"

def ConfigProblem.message : ConfigProblem → String
  | .missingReference kind id => "missing reference: " ++ kind.text ++ " '" ++ id ++ "'"
  | .duplicateResource name => "duplicate resource name: " ++ name
  | .cycle name => "resource hierarchy cycle through '" ++ name ++ "'"
  | .load reason => "config load: " ++ reason
  | .validation problem => "validation: " ++ problem.message

namespace Failure

def ofCriteria (e : CriteriaError) : Failure := .malformedCriteria e.message

def ofQuery (e : QueryError) : Failure := .malformedCriteria e.message

def unknownResource (name : String) : Failure := .config (.missingReference .resource name)

def message : Failure → String
  | .config e => e.message
  | .malformedCriteria reason => "malformed criteria: " ++ reason
  | .badRequest reason => "bad request: " ++ reason
  | .unsupportedMediaType reason => "unsupported media type: " ++ reason
  | .payloadTooLarge reason => "payload too large: " ++ reason
  | .forbidden => "insufficient privilege"
  | .notFound id => "not found: " ++ id
  | .conflict reason => "conflict: " ++ reason
  | .internal reason => "internal: " ++ reason

def status : Failure → Nat
  | .config _ | .internal _ => 500
  | .malformedCriteria _ | .badRequest _ => 400
  | .unsupportedMediaType _ => 415
  | .payloadTooLarge _ => 413
  | .forbidden => 403
  | .notFound _ => 404
  | .conflict _ => 409

def codes : Failure → String × String
  | .config _ => ("InternalServerError", "ConfigError")
  | .internal _ => ("InternalServerError", "RunTimeError")
  | .malformedCriteria _ => ("BadRequest", "MalformedCriteria")
  | .badRequest _ => ("BadRequest", "BadRequest")
  | .unsupportedMediaType _ => ("UnsupportedMediaType", "UnsupportedMediaType")
  | .payloadTooLarge _ => ("PayloadTooLarge", "PayloadTooLarge")
  | .forbidden => ("Forbidden", "Forbidden")
  | .notFound _ => ("NotFound", "NotFound")
  | .conflict _ => ("Conflict", "Conflict")

/-- The body of the answer to a request that fails so. Only a record that is not there
has a context, which names it. -/
def envelope (f : Failure) : Json :=
  let context := match f with
    | .notFound id => [("context", Json.ofFields [("id", .string id)])]
    | _ => []
  Json.ofFields ([
    ("name", .string f.codes.1),
    ("message", .string f.message),
    ("messageCode", .string f.codes.2),
    ("statusCode", .ofNat f.status)] ++ context)

end Failure

end Grove
