import Grove.Postgres.Address
import Grove.Postgres.Server
import Grove.Settings

/-!
# Preparing a database

Before a service can use a database it makes sure that there is one: it asks the server
from the server's own database and creates what is missing. Then it opens a pool of
connections and may run a script that makes the tables.
-/

namespace Grove.Postgres

structure Pool where
  maxConnections : Nat
deriving DecidableEq, Inhabited

variable {ω : Type} (server : Server ω)

def existsQuery : String := "SELECT EXISTS(SELECT 1 FROM pg_database WHERE datname = $1)"

/-- Creates the database that the address means if the server does not have it. The
server's own database is there in any case. -/
def ensureDatabase (url : String) : Attempt ω Unit := do
  match Address.split url with
  | .error e => throw (.config e)
  | .ok (serverUrl, name) =>
    if name = "" || name = serverDatabase then return
    match Address.read serverUrl with
    | .error e =>
      throw (.config (.validation (.badUrl (DatabaseError.configuration e.message).message)))
    | .ok address =>
      let _ ← server.send (.connect address.target)
      let reply ← server.run existsQuery [.text name]
      let row ← must reply.firstRow
      if !(← must (Reply.cell Cell.bool? row 0)) then
        let _ ← server.run ("CREATE DATABASE " ++ Sql.quoted name) []

/-- Opens the pool that the settings ask for. A pool that may hold no connection never
gives one. -/
def openPool (settings : Settings) : Attempt ω Pool := do
  match settings.databaseUrl with
  | none => throw (.config (.validation .urlMissing))
  | some url =>
    ensureDatabase server url
    match Address.read url with
    | .error e => throw (DatabaseError.configuration e.message).failure
    | .ok address =>
      if settings.maxConnections = 0 then throw DatabaseError.poolTimedOut.failure
      let _ ← server.send (.connect address.target)
      return ⟨settings.maxConnections⟩

def runScript (script : String) : Attempt ω Unit := do
  let _ ← server.send (.script script)

end Grove.Postgres
