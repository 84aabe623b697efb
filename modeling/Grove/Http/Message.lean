import Grove.Access
import Grove.Failure

/-!
# Requests and responses

The parts of a request that the service looks at, and the responses that it gives.
-/

namespace Grove.Http

structure Request where
  method : String
  /-- The address as it stands in the request. -/
  target : String
  headers : Headers := []
  body : String := ""

inductive Content where
  | empty
  | json (value : Json)
  | text (s : String)
deriving Inhabited

structure Response where
  status : Nat
  content : Content
deriving Inhabited

namespace Response

def ok (value : Json) : Response := ⟨200, .json value⟩

def created (value : Json) : Response := ⟨201, .json value⟩

def ofFailure (f : Failure) : Response := ⟨f.status, .json f.envelope⟩

def notFound : Response := ⟨404, .empty⟩

def methodNotAllowed : Response := ⟨405, .empty⟩

def tooLarge : Response := ⟨413, .text "length limit exceeded"⟩

def withoutContent (r : Response) : Response := { r with content := .empty }

end Response

end Grove.Http
