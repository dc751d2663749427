import Std.Data.HashMap
import TieredCache.KeyHash
import TieredCache.Settings.Basic

/-!
# Routing to shards

Records are spread over shards.  The shard of a key is its hash modulo the
number of shards.  A worker may be bound to one shard, and its first binding
stays.
-/

namespace TieredCache

inductive RoutingError where
  | notRegistered (worker : Nat)
  | workerOutOfRange (worker limit : Nat)
  | shardOutOfRange (shard count : Nat)
  deriving DecidableEq, Repr

def RoutingError.message : RoutingError → String
  | .notRegistered worker => s!"worker {worker} is not registered"
  | .workerOutOfRange worker limit =>
      s!"worker {worker} out of range (max {limit})"
  | .shardOutOfRange shard count =>
      s!"shard {shard} out of range ({count} pools)"

structure Routing where
  shardCount : Nat
  workerLimit : Nat
  bindings : Std.HashMap Nat Nat
  shardCount_pos : 0 < shardCount

namespace Routing

def create (shardCount workerLimit : Nat) : Except SettingsError Routing :=
  if h : 0 < shardCount then
    .ok { shardCount, workerLimit, bindings := ∅, shardCount_pos := h }
  else .error (.invalid Key.poolCount .notPositive)

def shardOfKey (routing : Routing) (key : Bytes) : Nat :=
  (KeyHash.hash key).toNat % routing.shardCount

theorem shardOfKey_lt (routing : Routing) (key : Bytes) :
    routing.shardOfKey key < routing.shardCount :=
  Nat.mod_lt _ routing.shardCount_pos

def shardOfWorker (routing : Routing) (worker : Nat) :
    Except RoutingError Nat :=
  match routing.bindings[worker]? with
  | some shard => .ok shard
  | none => .error (.notRegistered worker)

/-- Binds a worker to a shard unless it is bound already; returns the shard that
it is bound to. -/
def register (routing : Routing) (worker shard : Nat) :
    Except RoutingError (Nat × Routing) :=
  if routing.shardCount ≤ shard then
    .error (.shardOutOfRange shard routing.shardCount)
  else if routing.workerLimit ≤ worker then
    .error (.workerOutOfRange worker routing.workerLimit)
  else
    match routing.bindings[worker]? with
    | some bound => .ok (bound, routing)
    | none =>
        .ok (shard,
          { routing with bindings := routing.bindings.insert worker shard })

end Routing

end TieredCache
