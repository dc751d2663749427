import TieredCache.Settings.Properties

/-!
# Arguments of the command line

An option that takes a value has it in the next argument, or attached to it, for
a long name after an equals sign.  A value in the next argument is read when the
next known option begins or the arguments end; so an argument that cannot stand
where it stands is reported before a bad value just before it.
-/

namespace TieredCache.CommandLine

/-! ## Options -/

inductive Flag where
  | load
  | run
  | help
  | version
  deriving DecidableEq, Repr

inductive Setting where
  | propertyFile
  | property
  | threads
  | status
  | seed
  deriving DecidableEq, Repr

inductive OptionKind where
  | flag (flag : Flag)
  | setting (setting : Setting)
  deriving DecidableEq, Repr

def OptionKind.ofLong? : String → Option OptionKind
  | "property-file" => some (.setting .propertyFile)
  | "property" => some (.setting .property)
  | "load" => some (.flag .load)
  | "run" => some (.flag .run)
  | "threads" => some (.setting .threads)
  | "status" => some (.setting .status)
  | "seed" => some (.setting .seed)
  | "help" => some (.flag .help)
  | "version" => some (.flag .version)
  | _ => none

def OptionKind.ofShort? : Char → Option OptionKind
  | 'P' => some (.setting .propertyFile)
  | 'p' => some (.setting .property)
  | 't' => some (.setting .threads)
  | 's' => some (.setting .status)
  | 'h' => some (.flag .help)
  | 'V' => some (.flag .version)
  | _ => none

structure Options where
  propertyFiles : List String := []
  properties : List (String × String) := []
  load : Bool := false
  run : Bool := false
  threads : Option UInt64 := none
  status : Option UInt64 := none
  seed : Option UInt64 := none
  deriving DecidableEq, Repr

inductive Refusal where
  | help
  | version
  | badUsage
  | badProperty (text : String)
  deriving DecidableEq, Repr

namespace Options

private def number (current : Option UInt64) (text : String) :
    Except Refusal (Option UInt64) :=
  if current.isSome then .error .badUsage
  else
    match (Readable.read text : Except ValueError UInt64) with
    | .ok n => .ok (some n)
    | .error _ => .error .badUsage

/-- Sets an option that takes a value.  Files and properties add up; any other
is given once. -/
def set (options : Options) (setting : Setting) (text : String) :
    Except Refusal Options :=
  match setting with
  | .propertyFile =>
      if text.isEmpty then .error .badUsage
      else .ok { options with propertyFiles := options.propertyFiles ++ [text] }
  | .property =>
      match Properties.assignment? text.toList with
      | none => .error (.badProperty text)
      | some property =>
          .ok { options with properties := options.properties ++ [property] }
  | .threads =>
      (number options.threads text).map fun threads => { options with threads }
  | .status =>
      (number options.status text).map fun status => { options with status }
  | .seed => (number options.seed text).map fun seed => { options with seed }

def raise (options : Options) : Flag → Except Refusal Options
  | .load =>
      if options.load then .error .badUsage else .ok { options with load := true }
  | .run =>
      if options.run then .error .badUsage else .ok { options with run := true }
  | .help => .error .help
  | .version => .error .version

end Options

/-! ## Reading -/

/-- The options read so far, and the last one if its value is still to come or
still to be read. -/
structure Reading where
  options : Options
  pending : Option (Setting × Option String)
  deriving Repr

inductive Argument where
  | endOfOptions
  | long (name : String) (attached : Option String)
  | short (name : Char) (attached : Option String)
  | plain (text : String)
  deriving DecidableEq, Repr

/-- A single dash is no option.  What follows a short name is its value, with or
without an equals sign before it. -/
def Argument.ofText (text : String) : Argument :=
  match text.toList with
  | ['-', '-'] => .endOfOptions
  | '-' :: '-' :: rest =>
      match Text.cut? '=' rest with
      | some (name, value) => .long (String.ofList name) (some (String.ofList value))
      | none => .long (String.ofList rest) none
  | '-' :: name :: rest =>
      match rest with
      | [] => .short name none
      | '=' :: value => .short name (some (String.ofList value))
      | value => .short name (some (String.ofList value))
  | _ => .plain text

namespace Reading

/-- Reads the value that is still to be read; one still to come is missing. -/
def settle (reading : Reading) : Except Refusal Options :=
  match reading.pending with
  | none => .ok reading.options
  | some (_, none) => .error .badUsage
  | some (setting, some text) => reading.options.set setting text

def setting (reading : Reading) (setting : Setting) (attached : Option String) :
    Except Refusal Reading :=
  match reading.settle with
  | .error refusal => .error refusal
  | .ok options =>
      match attached with
      | none => .ok ⟨options, some (setting, none)⟩
      | some text =>
          (options.set setting text).map fun options => ⟨options, none⟩

def flag (reading : Reading) (flag : Flag) : Except Refusal Reading :=
  match reading.settle with
  | .error refusal => .error refusal
  | .ok options => (options.raise flag).map fun options => ⟨options, none⟩

def plain (reading : Reading) (text : String) : Except Refusal Reading :=
  match reading.pending with
  | some (setting, none) =>
      .ok { reading with pending := some (setting, some text) }
  | _ => .error .badUsage

/-- A long flag takes nothing; after a short one the rest does not count, since
only the flags that end the reading are short. -/
def step (reading : Reading) : Argument → Except Refusal Reading
  | .endOfOptions => .error .badUsage
  | .long name attached =>
      match OptionKind.ofLong? name, attached with
      | some (.setting setting), attached => reading.setting setting attached
      | some (.flag flag), none => reading.flag flag
      | _, _ => .error .badUsage
  | .short name attached =>
      match OptionKind.ofShort? name with
      | some (.setting setting) => reading.setting setting attached
      | some (.flag flag) => reading.flag flag
      | none => .error .badUsage
  | .plain text => reading.plain text

def readAll (reading : Reading) : List Argument → Except Refusal Options
  | [] => reading.settle
  | [.endOfOptions] => reading.settle
  | argument :: rest =>
      match reading.step argument with
      | .error refusal => .error refusal
      | .ok reading => readAll reading rest

end Reading

def Options.ofArguments (arguments : List String) : Except Refusal Options :=
  Reading.readAll ⟨{}, none⟩ (arguments.map Argument.ofText)

end TieredCache.CommandLine
