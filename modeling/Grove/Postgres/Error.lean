import Grove.Failure

/-!
# Errors of the database

Why a statement does not get its result. A key that is there already is a conflict, which
the caller can do something about; everything else is a failure of the service.
-/

namespace Grove.Postgres

inductive DatabaseError where
  /-- The server reports an error. -/
  | server (code message : String)
  /-- The server cannot be talked to. -/
  | connection (reason : String)
  /-- The address of the server cannot be used. -/
  | configuration (reason : String)
  | rowNotFound
  | columnNotFound (name : String)
  /-- A column's value is not of the type that is expected there. -/
  | column (index : Nat) (reason : String)
  | protocol (problem : String)
  | poolTimedOut
  | poolClosed
deriving DecidableEq, Inhabited

namespace DatabaseError

/-- The server's code for a key that is there already. -/
def uniqueViolation : String := "23505"

def message : DatabaseError → String
  | .server _ message => "error returned from database: " ++ message
  | .connection reason => "error communicating with database: " ++ reason
  | .configuration reason => "error with configuration: " ++ reason
  | .rowNotFound => "no rows returned by a query that expected to return at least one row"
  | .columnNotFound name => "no column found for name: " ++ name
  | .column index reason =>
    "error occurred while decoding column " ++ toString index ++ ": " ++ reason
  | .protocol problem => "encountered unexpected or invalid data: " ++ problem
  | .poolTimedOut => "pool timed out while waiting for an open connection"
  | .poolClosed => "attempted to acquire a connection on a closed pool"

def failure : DatabaseError → Failure
  | .server code message =>
    if code = uniqueViolation then .conflict message
    else .internal (DatabaseError.server code message).message
  | e => .internal e.message

end DatabaseError

end Grove.Postgres
