import TieredCache.CommandLine.Lines

/-!
# The command line

Reads the property files that the arguments name, runs the benchmark, and prints
its lines to the standard output and what went wrong to the standard error.
-/

namespace TieredCache.CommandLine

/-- What an attempt to read a file ran into.  A directory opens and then cannot
be read, so the error names no file. -/
def fileError : IO.Error → FileError
  | .noFileOrDirectory .. => .missing
  | .permissionDenied .. => .denied
  | .inappropriateType (some _) .. => .notDirectory
  | .inappropriateType none .. => .isDirectory
  | .invalidArgument (some _) _ "name too long" => .nameTooLong
  | e => .other (toString e)

def readPropertyFile (path : String) : IO (Except FileError String) := do
  try
    let bytes ← IO.FS.readBinFile path
    return decodeFile bytes.data.toList
  catch e => return .error (fileError e)

def readPropertyFiles (arguments : List String) :
    IO (List (String × Except FileError String)) :=
  match Options.ofArguments arguments with
  | .error _ => return []
  | .ok options =>
      options.propertyFiles.mapM fun path =>
        return (path, ← readPropertyFile path)

def freshSeed : IO UInt64 := do
  let bytes ← IO.getRandomBytes 8
  return UInt64.ofNat (Bytes.toNatLE bytes.data.toList)

def printEnding : Ending → IO Unit
  | .refused .help => IO.println usage
  | .refused .version => IO.println version
  | .refused .badUsage => IO.eprintln usage
  | ending =>
      match ending.message? with
      | some message => IO.eprintln message
      | none => pure ()

def execute (arguments : List String) : IO UInt32 := do
  let contents ← readPropertyFiles arguments
  let files (path : String) : Except FileError String :=
    (contents.lookup path).getD (.error .missing)
  let output := run arguments files (← freshSeed)
  for line in output.lines do
    IO.println line.json
  printEnding output.ending
  return UInt32.ofNat output.ending.exitCode

end TieredCache.CommandLine

def main (arguments : List String) : IO UInt32 :=
  TieredCache.CommandLine.execute arguments
