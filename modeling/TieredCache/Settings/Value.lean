import TieredCache.Decimal.Natural
import TieredCache.Decimal.Real
import TieredCache.Text.Blank
import TieredCache.Text.Quoted

/-!
# Values of settings

Settings arrive as texts.  A kind of value says which texts write it; a setting
that is present and does not write a value of its kind is at fault, and so is
one whose value is out of the range that its use allows.
-/

namespace TieredCache

/-! ## Reading -/

inductive ValueError where
  | natural (error : Decimal.NaturalError)
  | real (error : Decimal.RealError)
  | truth
  | choice (expected found : String)
  deriving DecidableEq, Repr

def ValueError.message : ValueError → String
  | .natural error => error.message
  | .real error => error.message
  | .truth => "provided string was not `true` or `false`"
  | .choice expected found => s!"expected {expected}, got {found}"

class Readable (α : Type) where
  read : String → Except ValueError α

instance : Readable UInt64 where
  read text :=
    match Decimal.readBelow UInt64.size text.toList with
    | .ok n => .ok (UInt64.ofNat n)
    | .error e => .error (.natural e)

instance : Readable UInt32 where
  read text :=
    match Decimal.readBelow UInt32.size text.toList with
    | .ok n => .ok (UInt32.ofNat n)
    | .error e => .error (.natural e)

instance : Readable Float where
  read text :=
    match Decimal.readReal text.toList with
    | .ok x => .ok x
    | .error e => .error (.real e)

instance : Readable Bool where
  read
    | "true" => .ok true
    | "false" => .ok false
    | _ => .error .truth

/-! ## Faults -/

inductive Fault where
  | unreadable (text : String) (error : ValueError)
  | notAssignment (line : Nat)
  | notPositive
  | blankDevice
  | zeroCapacity
  | hugeCapacity
  | notPercentage (value : Nat)
  | hugeByteCount
  | unknownWriteMode (text : String)
  | widthOutside (greatest : Nat)
  | morePoolsThanBytes
  | other (reason : String)
  deriving DecidableEq, Repr

def Fault.message : Fault → String
  | .unreadable text error => s!"{Text.quote text}: {error.message}"
  | .notAssignment line => s!"line {line} is not key=value"
  | .notPositive => "must be positive"
  | .blankDevice => "device path is empty"
  | .zeroCapacity => "device capacity must be positive"
  | .hugeCapacity => "device capacity overflows"
  | .notPercentage value => s!"{value} is not a percentage"
  | .hugeByteCount => "overflows a byte count"
  | .unknownWriteMode text => s!"unknown write mode {Text.quote text}"
  | .widthOutside greatest => s!"width must be 1..={greatest}"
  | .morePoolsThanBytes => "more pools than bytes of cache"
  | .other reason => reason

inductive SettingsError where
  | unknownMode (name : String)
  | invalid (key : String) (fault : Fault)
  deriving DecidableEq, Repr

def SettingsError.message : SettingsError → String
  | .unknownMode name => s!"unknown tier mode: {Text.quote name}"
  | .invalid key fault => s!"invalid config {key}: {fault.message}"

end TieredCache
