import TieredCache.Row.Basic

/-!
# Reading some fields of a row

Requested fields come back in request order from one walk over the row.  A
field that is passed over is parked, and later requests look among the parked
fields first, oldest first, before the walk goes on; so equal names are answered
in row order.  The walk stops once every request is answered.
-/

namespace TieredCache.Row

structure Cursor where
  offset : Nat
  rest : Bytes
  deriving DecidableEq, Repr

def Cursor.start (bytes : Bytes) : Cursor := ⟨0, bytes⟩

def unpark? (name : Bytes) (parked : Record) : Option (Field × Record) :=
  match parked.dropWhile (·.name != name) with
  | [] => none
  | field :: rest => some (field, parked.takeWhile (·.name != name) ++ rest)

/-- What a walk in search of a name comes to: the field if it was met, the
fields passed over, and the cursor after them. -/
structure Search where
  found : Option Field
  passed : Record
  cursor : Cursor
  deriving DecidableEq, Repr

def walkTo (name : Bytes) (passed : Record) (offset : Nat) (bytes : Bytes) :
    Except RowError Search :=
  if bytes.isEmpty then .ok ⟨none, passed.reverse, ⟨offset, bytes⟩⟩
  else
    match _ : readField bytes with
    | .error damage => .error (.malformed offset damage)
    | .ok (field, rest) =>
        let next := offset + fieldSize field
        if field.name = name then
          .ok ⟨some field, passed.reverse, ⟨next, rest⟩⟩
        else walkTo name (field :: passed) next rest
termination_by bytes.length
decreasing_by exact length_lt_of_readField ‹_›

def park (parked passed : Record) : Record :=
  if passed.isEmpty then parked else parked ++ passed

@[simp] theorem park_eq_append (parked passed : Record) :
    park parked passed = parked ++ passed := by
  cases passed <;> simp [park]

/-- Answers requests in order, with the answers so far in reverse.  A request
that is not met is left out. -/
def answer (parked : Record) (cursor : Cursor) (answers : Record) :
    List Bytes → Except RowError Record
  | [] => .ok answers.reverse
  | name :: names =>
      match unpark? name parked with
      | some (field, others) => answer others cursor (field :: answers) names
      | none =>
          match walkTo name [] cursor.offset cursor.rest with
          | .error e => .error e
          | .ok search =>
              let parked := park parked search.passed
              match search.found with
              | some field => answer parked search.cursor (field :: answers) names
              | none => answer parked search.cursor answers names

/-- The requested fields of a row in request order; all of them must be there. -/
def decodeSelected (bytes : Bytes) (names : List Bytes) :
    Except RowError Record :=
  match answer [] (Cursor.start bytes) [] names with
  | .error e => .error e
  | .ok answers =>
      if answers.length = names.length then .ok answers
      else .error (.incomplete names.length answers.length)

end TieredCache.Row
