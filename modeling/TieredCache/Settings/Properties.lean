import Std.Data.HashMap
import TieredCache.Settings.Value

/-!
# Properties

A property file has one `key=value` on a line; blank lines and lines that begin
with a number sign say nothing.  The last line for a key counts, and so does the
last of several sources.
-/

namespace TieredCache

structure Properties where
  values : Std.HashMap String String

namespace Properties

def empty : Properties := ⟨∅⟩

def set (properties : Properties) (key value : String) : Properties :=
  ⟨properties.values.insert key value⟩

/-- All properties of both, those of `other` before those of the first. -/
def extend (properties other : Properties) : Properties :=
  ⟨properties.values ∪ other.values⟩

def get? (properties : Properties) (key : String) : Option String :=
  properties.values[key]?

def getD (properties : Properties) (key default : String) : String :=
  (properties.get? key).getD default

def sameAs (properties other : Properties) : Bool :=
  properties.values.size = other.values.size &&
    properties.values.all fun key value => other.get? key = some value

@[simp] theorem get?_empty (key : String) : empty.get? key = none := by
  simp [empty, get?]

theorem get?_set (properties : Properties) (key value other : String) :
    (properties.set key value).get? other =
      if key = other then some value else properties.get? other := by
  simp [set, get?, Std.HashMap.getElem?_insert]

theorem get?_extend (properties other : Properties) (key : String) :
    (properties.extend other).get? key =
      (other.get? key).or (properties.get? key) := by
  simp [extend, get?, Std.HashMap.getElem?_union]

/-- The value of a key as a value of its kind, or `default` where the key has
none. -/
def readD {α : Type} [Readable α] (properties : Properties) (key : String)
    (default : α) : Except SettingsError α :=
  match properties.get? key with
  | none => .ok default
  | some text =>
      match Readable.read text with
      | .ok value => .ok value
      | .error e => .error (.invalid key (.unreadable text e))

/-! ## Files -/

/-- The key and the value of an assignment: what stands before and after the
first equals sign, each without the blanks at its ends. -/
def assignment? (text : List Char) : Option (String × String) :=
  (Text.cut? '=' text).map fun (key, value) =>
    (String.ofList (Text.trim key), String.ofList (Text.trim value))

def isIdle (line : List Char) : Bool :=
  match line with
  | [] => true
  | c :: _ => c = '#'

def readLines (number : Nat) (properties : Properties) :
    List (List Char) → Except SettingsError Properties
  | [] => .ok properties
  | line :: rest =>
      let line := Text.trim line
      if isIdle line then readLines (number + 1) properties rest
      else
        match assignment? line with
        | some (key, value) =>
            readLines (number + 1) (properties.set key value) rest
        | none =>
            .error (.invalid (String.ofList line) (.notAssignment number))

def parse (text : String) : Except SettingsError Properties :=
  readLines 1 empty (Text.lines text.toList)

end Properties

end TieredCache
