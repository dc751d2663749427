import TieredCache.Engine.Basic
import TieredCache.Row.Basic
import TieredCache.Store.Routing

/-!
# Errors of a store

A store fails for a cause in one of its parts, or because the engine has no
room for a row, or because a scan starts at a key that has no number.  Some
causes leave the store usable; the others do not.  An operation that asks for
more memory than there can be comes to no error; it is just cut short.
-/

namespace TieredCache

inductive StoreError where
  | settings (cause : SettingsError)
  | row (cause : RowError)
  | routing (cause : RoutingError)
  | engine (cause : EngineError)
  | allocationFailed (shard size : Nat)
  | invalidScanKey (text : String)
  deriving DecidableEq, Repr

namespace StoreError

def message : StoreError → String
  | .settings cause => cause.message
  | .row cause => cause.message
  | .routing cause => cause.message
  | .engine cause => s!"engine error: {cause.message}"
  | .allocationFailed shard size =>
      s!"allocation of {size} bytes failed in pool {shard}"
  | .invalidScanKey text => s!"invalid scan key: {Text.quote text}"

/-- The message, and after it that of the cause where the cause is an error of
its own. -/
def chain (error : StoreError) : List String :=
  match error with
  | .engine cause => [error.message, cause.message]
  | _ => [error.message]

/-- Whether stored bytes are damaged.  A row that lacks a field is not. -/
def isCorruption : StoreError → Bool
  | .row (.malformed ..) => true
  | _ => false

def isFatal : StoreError → Bool
  | .allocationFailed .. | .engine _ => true
  | error => error.isCorruption

end StoreError

/-- How an operation ends that comes to no result. -/
inductive Halt where
  | reported (error : StoreError)
  | cutShort
  deriving DecidableEq, Repr

end TieredCache
