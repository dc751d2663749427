/-!
# Operations of a workload

The kinds of operation that a workload issues, in the order in which they are
reported.
-/

namespace TieredCache

inductive Operation where
  | read
  | update
  | scan
  | insert
  | delete
  deriving DecidableEq, Repr

namespace Operation

def all : List Operation := [.read, .update, .scan, .insert, .delete]

def name : Operation → String
  | .read => "READ"
  | .update => "UPDATE"
  | .scan => "SCAN"
  | .insert => "INSERT"
  | .delete => "DELETE"

def index : Operation → Nat
  | .read => 0
  | .update => 1
  | .scan => 2
  | .insert => 3
  | .delete => 4

end Operation

end TieredCache
