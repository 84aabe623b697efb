import Grove.Failure
import Grove.Text

/-!
# Settings

What a service is started with, from named texts such as the variables of an environment.
What is not set has a default.
-/

namespace Grove

inductive StorageKind where
  | document
  | postgres
deriving DecidableEq, Inhabited

structure Settings where
  bindAddress : String
  storage : StorageKind
  databaseUrl : Option String
  documentPath : String
  /-- A 32-bit number. -/
  maxConnections : Nat
  acquireTimeoutSeconds : Nat
  resourceConfig : String
  /-- Stands in the place of the configuration's base path. -/
  apiBasePath : Option String
deriving DecidableEq, Inhabited

namespace StorageKind

def read (s : String) : Except ConfigProblem StorageKind :=
  let name := Text.lower (Text.trim s)
  match name with
  | "document" => .ok .document
  | "postgres" | "postgresql" => .ok .postgres
  | _ => .error (.validation (.unknownBackend name))

end StorageKind

namespace Settings

def number (get : String → Option String) (name : String) (default : Nat) :
    Except ConfigProblem Nat :=
  match get name with
  | none => .ok default
  | some v =>
    match Text.readNat? Text.maxUnsigned64 (Text.trim v) with
    | some n => .ok n
    | none => .error (.validation (.notANumber name v))

def read (get : String → Option String) : Except ConfigProblem Settings := do
  let storage ← match get "STORAGE_BACKEND" with
    | some v => StorageKind.read v
    | none => pure .document
  let databaseUrl := (get "DATABASE_URL").filter fun s => !Text.isAllBlank s
  if storage = .postgres && databaseUrl.isNone then throw (.validation .backendWithoutUrl)
  let connections ← number get "DB_MAX_CONNECTIONS" 5
  let timeout ← number get "DB_ACQUIRE_TIMEOUT_SECS" 5
  return {
    bindAddress := (get "BIND_ADDR").getD "127.0.0.1:3000"
    storage
    databaseUrl
    documentPath := (get "DOCUMENT_PATH").getD "data/documents.redb"
    maxConnections := connections % 0x100000000
    acquireTimeoutSeconds := timeout
    resourceConfig := (get "RESOURCE_CONFIG").getD "resources.json"
    apiBasePath := get "API_BASE_PATH" }

end Settings

end Grove
