import TieredCache.KeySpace
import TieredCache.Memory
import TieredCache.Store.Error
import TieredCache.Text.Repair

/-!
# Scans by lookups

Keys have no order of their own in the store.  A scan counts upward from the
number of its start key, looks up one key after another, and keeps the rows that
it meets.  It ends with enough rows, with no more numbers that fit the keys, or
with a limit on lookups, so that it ends where few numbers are in use.  The
memory for the rows is asked for before the first lookup.
-/

namespace TieredCache

def Scanner.maxWidth : Nat := 20

structure Scanner where
  space : KeySpace
  lookupLimit : Nat
  width_pos : 0 < space.width
  width_le : space.width ≤ Scanner.maxWidth

namespace Scanner

def create (settings : ScanSettings) : Except SettingsError Scanner :=
  let space : KeySpace := ⟨Bytes.ofString settings.stem, settings.width.toNat⟩
  if h : 0 < space.width ∧ space.width ≤ maxWidth then
    .ok ⟨space, settings.lookupLimit.toNat, h.1, h.2⟩
  else .error (.invalid Key.keyWidth (.widthOutside maxWidth))

def idOf (scanner : Scanner) (key : Bytes) : Except StoreError Nat :=
  match scanner.space.id? key with
  | some id => .ok id
  | none => .error (.invalidScanKey (Text.repair key))

def keyAt? (scanner : Scanner) (id : Nat) : Option Bytes :=
  if id < idLimit then scanner.space.key? id else none

section Lookups

variable {σ ρ : Type}
  (lookup : σ → Bytes → Except StoreError (Option ρ) × σ)

/-- Makes at most `lookups` lookups from a number on for at most `wanted` more
rows; those found so far are in reverse.  A lookup may change the state, and an
error ends the scan with the state that it left. -/
def collect (scanner : Scanner) (rows : List ρ) :
    Nat → Nat → Nat → σ → Except StoreError (List ρ) × σ
  | 0, _, _, state => (.ok rows.reverse, state)
  | _, 0, _, state => (.ok rows.reverse, state)
  | lookups + 1, wanted + 1, id, state =>
      match scanner.keyAt? id with
      | none => (.ok rows.reverse, state)
      | some key =>
          match lookup state key with
          | (.error e, state) => (.error e, state)
          | (.ok none, state) =>
              collect scanner rows lookups (wanted + 1) (id + 1) state
          | (.ok (some row), state) =>
              collect scanner (row :: rows) lookups wanted (id + 1) state

def hasMemory (scanner : Scanner) (rowSize count : Nat) : Bool :=
  Memory.holds (min count scanner.lookupLimit) rowSize

/-- The rows of at most `count` keys in use, in the order of their numbers, from
a start key on.  A start key without a number costs no lookup. -/
def scan (scanner : Scanner) (rowSize : Nat) (start : Bytes) (count : Nat)
    (state : σ) : Except Halt (List ρ) × σ :=
  match scanner.idOf start with
  | .error e => (.error (.reported e), state)
  | .ok id =>
      if scanner.hasMemory rowSize count then
        let (rows, state) :=
          scanner.collect lookup [] scanner.lookupLimit count id state
        (rows.mapError .reported, state)
      else (.error .cutShort, state)

end Lookups

end Scanner

end TieredCache
