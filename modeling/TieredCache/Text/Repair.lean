import TieredCache.Bytes

/-!
# Reading damaged UTF-8

Bytes are read as UTF-8 where they are UTF-8.  Where they are not, each longest
run of bytes that could still have begun a character becomes one replacement
character, and reading goes on with the byte after the run.
-/

namespace TieredCache.Text

def replacement : Char := '\uFFFD'

/-- A character whose first bytes have been read: its bits so far, how many
bytes it still needs, and the bounds of the next one. -/
structure Partial where
  bits : Nat
  needed : Nat
  least : Nat
  greatest : Nat
  deriving DecidableEq, Repr

inductive Start where
  | complete (c : Char)
  | partly (rest : Partial)
  | invalid
  deriving DecidableEq, Repr

/-- The bounds of the second byte exclude overlong forms, surrogates, and
numbers above `10FFFF`. -/
def Start.ofByte (byte : UInt8) : Start :=
  let b := byte.toNat
  if b < 0x80 then .complete (Char.ofNat b)
  else if b < 0xC2 then .invalid
  else if b < 0xE0 then .partly ⟨b - 0xC0, 1, 0x80, 0xBF⟩
  else if b = 0xE0 then .partly ⟨0, 2, 0xA0, 0xBF⟩
  else if b = 0xED then .partly ⟨0xD, 2, 0x80, 0x9F⟩
  else if b < 0xF0 then .partly ⟨b - 0xE0, 2, 0x80, 0xBF⟩
  else if b = 0xF0 then .partly ⟨0, 3, 0x90, 0xBF⟩
  else if b < 0xF4 then .partly ⟨b - 0xF0, 3, 0x80, 0xBF⟩
  else if b = 0xF4 then .partly ⟨4, 3, 0x80, 0x8F⟩
  else .invalid

structure Reading where
  done : List Char
  pending : Option Partial
  deriving Repr

namespace Reading

def begin (done : List Char) (byte : UInt8) : Reading :=
  match Start.ofByte byte with
  | .complete c => ⟨c :: done, none⟩
  | .partly rest => ⟨done, some rest⟩
  | .invalid => ⟨replacement :: done, none⟩

def step (reading : Reading) (byte : UInt8) : Reading :=
  match reading.pending with
  | none => begin reading.done byte
  | some rest =>
      if rest.least ≤ byte.toNat ∧ byte.toNat ≤ rest.greatest then
        let bits := rest.bits * 64 + (byte.toNat - 0x80)
        if rest.needed = 1 then ⟨Char.ofNat bits :: reading.done, none⟩
        else ⟨reading.done, some ⟨bits, rest.needed - 1, 0x80, 0xBF⟩⟩
      else begin (replacement :: reading.done) byte

def finish (reading : Reading) : List Char :=
  match reading.pending with
  | none => reading.done.reverse
  | some _ => (replacement :: reading.done).reverse

end Reading

def repair (bytes : Bytes) : String :=
  String.ofList (bytes.foldl Reading.step ⟨[], none⟩).finish

def ofUtf8? (bytes : Bytes) : Option String :=
  String.fromUTF8? ⟨bytes.toArray⟩

end TieredCache.Text
