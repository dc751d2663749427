import TieredCache.Decimal.Shortest
import TieredCache.KeySpace
import TieredCache.Memory
import TieredCache.Random
import TieredCache.Row.Basic
import TieredCache.Settings.Basic
import TieredCache.Workload.Operation

/-!
# Workloads

A workload says how many records there are, what they look like, and how often
each kind of operation comes up.  Records are numbered from zero, and an insert
takes the next number; operations on records that exist draw a number below it.
-/

namespace TieredCache

/-! ## Keys -/

namespace Key

def table : String := "table"
def recordCount : String := "recordcount"
def operationCount : String := "operationcount"
def fieldLength : String := "fieldlength"
def readProportion : String := "readproportion"
def updateProportion : String := "updateproportion"
def scanProportion : String := "scanproportion"
def insertProportion : String := "insertproportion"
def deleteProportion : String := "deleteproportion"
def maxScanLength : String := "maxscanlength"
def readAllFields : String := "readallfields"

end Key

inductive WorkloadError where
  | settings (cause : SettingsError)
  | notPositive (key : String)
  | keysOverflow (records operations width : Nat)
  | badProportion (key : String) (weight : Float)
  | noOperations

def WorkloadError.message : WorkloadError → String
  | .settings cause => cause.message
  | .notPositive key => s!"{key} must be positive"
  | .keysOverflow records operations width =>
      s!"{records} records plus {operations} operations overflow " ++
        s!"{width}-digit keys"
  | .badProportion key weight =>
      s!"{key} must be a non-negative number, got " ++
        Decimal.messageStyle.render weight
  | .noOperations => "operation proportions are all zero"

/-! ## The mix of operations -/

/-- A kind of operation, and the sum of the weights up to it. -/
structure MixEntry where
  operation : Operation
  upTo : Float

abbrev Mix := List MixEntry

namespace Mix

def sources : List (Operation × String × Float) :=
  [(.read, Key.readProportion, 0.95),
   (.update, Key.updateProportion, 0.05),
   (.scan, Key.scanProportion, 0.0),
   (.insert, Key.insertProportion, 0.0),
   (.delete, Key.deleteProportion, 0.0)]

/-- Reads weights after the entries so far, which are in reverse and add up to
`total`. -/
def readFrom (properties : Properties) (entries : Mix) (total : Float) :
    List (Operation × String × Float) → Except WorkloadError Mix
  | [] => .ok entries.reverse
  | (operation, key, default) :: rest =>
      match properties.readD key default with
      | .error e => .error (.settings e)
      | .ok weight =>
          if 0.0 ≤ weight && weight.isFinite then
            if 0.0 < weight then
              let total := total + weight
              readFrom properties (⟨operation, total⟩ :: entries) total rest
            else readFrom properties entries total rest
          else .error (.badProportion key weight)

def ofProperties (properties : Properties) : Except WorkloadError Mix :=
  match readFrom properties [] 0.0 sources with
  | .error e => .error e
  | .ok [] => .error .noOperations
  | .ok mix => .ok mix

/-- The kind at a place between zero and the sum of all weights; where rounding
puts the place at that sum, it is the last kind. -/
def pick (mix : Mix) (place : Float) : Operation :=
  match (mix.find? fun entry => place < entry.upTo).or mix.getLast? with
  | some entry => entry.operation
  | none => .read

def total (mix : Mix) : Float :=
  match mix.getLast? with
  | some entry => entry.upTo
  | none => 0.0

end Mix

/-! ## Workloads -/

structure Workload where
  table : String
  recordCount : UInt64
  operationCount : UInt64
  fieldCount : UInt64
  fieldLength : UInt64
  maxScanLength : UInt64
  readAllFields : Bool
  keys : KeySpace
  mix : Mix
  nextInsert : UInt64

namespace Workload

def roomyWidth : Nat := 20

def fits (width count : Nat) : Bool :=
  roomyWidth ≤ width || count ≤ Decimal.powerOfTen width

private def read {α : Type} [Readable α] (properties : Properties)
    (key : String) (default : α) : Except WorkloadError α :=
  (properties.readD key default).mapError .settings

def ofProperties (properties : Properties) (keys : KeySpace) :
    Except WorkloadError Workload := do
  let recordCount ← read properties Key.recordCount (1000 : UInt64)
  let operationCount ← read properties Key.operationCount (1000 : UInt64)
  let fieldCount ← read properties Key.fieldCount (10 : UInt64)
  let maxScanLength ← read properties Key.maxScanLength (100 : UInt64)
  if fieldCount = 0 then throw (.notPositive Key.fieldCount)
  if maxScanLength = 0 then throw (.notPositive Key.maxScanLength)
  unless fits keys.width (recordCount.toNat + operationCount.toNat) do
    throw (.keysOverflow recordCount.toNat operationCount.toNat keys.width)
  let mix ← Mix.ofProperties properties
  let fieldLength ← read properties Key.fieldLength (100 : UInt64)
  let readAllFields ← read properties Key.readAllFields true
  return {
    table := properties.getD Key.table "usertable"
    recordCount, operationCount, fieldCount, fieldLength, maxScanLength
    readAllFields, keys, mix
    nextInsert := recordCount }

def key (workload : Workload) (id : Nat) : Bytes := workload.keys.key id

def fieldName (index : Nat) : Bytes :=
  Bytes.ofString "field" ++ Decimal.bytes index

/-! ## Draws -/

section Draws

variable {γ : Type} [Draws γ]

def nextOperation (workload : Workload) (g : γ) : Operation × γ :=
  let (fraction, g) := Draws.unit g
  (workload.mix.pick (fraction * workload.mix.total), g)

def fieldsOnto (length : Nat) (drawn : Record) (index : Nat) :
    Nat → γ → Record × γ
  | 0, g => (drawn.reverse, g)
  | count + 1, g =>
      let (value, g) := Draws.letters length g
      fieldsOnto length (⟨fieldName index, value⟩ :: drawn) (index + 1) count g

/-- Whether there can be memory for a record: for the list of its fields, and for
the value of each. -/
def hasMemory (workload : Workload) : Bool :=
  Memory.holds workload.fieldCount.toNat Memory.fieldSize &&
    (workload.fieldCount = 0 || Memory.holds workload.fieldLength.toNat 1)

def record? (workload : Workload) (g : γ) : Option (Record × γ) :=
  if workload.hasMemory then
    some (fieldsOnto workload.fieldLength.toNat [] 0
      workload.fieldCount.toNat g)
  else none

def someField (workload : Workload) (g : γ) : Bytes × γ :=
  let (index, g) := Draws.below workload.fieldCount.toNat g
  (fieldName index, g)

def projection (workload : Workload) (g : γ) : Option (List Bytes) × γ :=
  if workload.readAllFields then (none, g)
  else
    let (name, g) := workload.someField g
    (some [name], g)

/-- One of the record numbers taken so far, all of them equally likely. -/
def existing? (workload : Workload) (g : γ) : Option Nat × γ :=
  if workload.nextInsert = 0 then (none, g)
  else
    let (id, g) := Draws.below workload.nextInsert.toNat g
    (some id, g)

def scanLength (workload : Workload) (g : γ) : Nat × γ :=
  let (length, g) := Draws.below workload.maxScanLength.toNat g
  (length + 1, g)

end Draws

/-- Takes the next record number; the count of them wraps. -/
def claim (workload : Workload) : Nat × Workload :=
  (workload.nextInsert.toNat,
    { workload with nextInsert := workload.nextInsert + 1 })

end Workload

end TieredCache
