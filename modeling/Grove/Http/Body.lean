import Grove.Http.MediaType
import Grove.Http.Message
import Grove.Json.Reader

/-!
# The body of a request

A body has at most as many bytes as the limit admits and the request announces. A request
that announces more than the limit is refused before anyone looks for its address; a body
that is longer than it may be is refused when it is read. The value of a body is the one
that it starts with, and what follows is not looked at.
-/

namespace Grove.Http

def bodyLimit : Nat := 1024 * 1024

namespace Request

def announcedLength? (r : Request) : Option Nat := do
  let value ← r.headers.first? "content-length"
  if Headers.isReadable value then Text.readNat? Text.maxUnsigned64 value else none

def announcesTooMuch (r : Request) : Bool := r.announcedLength?.any (bodyLimit < ·)

def allowedLength (r : Request) : Nat := min bodyLimit (r.announcedLength?.getD bodyLimit)

def saysJson (r : Request) : Bool :=
  (r.headers.first? "content-type").any fun value =>
    Headers.isReadable value && MediaType.isJson value

def json (r : Request) : Except Failure Json :=
  if !r.saysJson then
    .error (.unsupportedMediaType "Expected request with `Content-Type: application/json`")
  else if r.allowedLength < r.body.utf8ByteSize then
    .error (.payloadTooLarge "Failed to buffer the request body: length limit exceeded")
  else
    match Json.readFirst? r.body with
    | some value => .ok value
    | none => .error (.badRequest "Failed to parse the request body as JSON")

def record (r : Request) : Except Failure Record := do
  match (← r.json).record? with
  | some record => return record
  | none => throw (.badRequest "body must be a JSON object")

end Request

end Grove.Http
