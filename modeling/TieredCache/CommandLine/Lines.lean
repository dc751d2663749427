import TieredCache.CommandLine.Run

/-!
# Lines of output

Reports and samples are printed as JSON objects, one on a line.  All names and
texts in them are plain, so nothing in them has to be escaped.
-/

namespace TieredCache.CommandLine

/-- Doubles in JSON keep `.0` and take an exponent outside of `1e-5` to `1e16`;
those that JSON cannot write become null. -/
def jsonReals : Decimal.RealStyle :=
  { tie := .toEven, plainFrom := -5, plainBelow := 16, pointZero := true
    nan := "null", infinite := "null" }

def jsonReal (x : Float) : String :=
  if x.isFinite then jsonReals.render x else "null"

def jsonNatural (n : Nat) : String := String.ofList (Decimal.text n)

def jsonText (text : String) : String := "\"" ++ text ++ "\""

def jsonObject (members : List (String × String)) : String :=
  let written := members.map fun (name, value) => jsonText name ++ ":" ++ value
  "\x7b" ++ String.intercalate "," written ++ "\x7d"

def jsonList (items : List String) : String :=
  "[" ++ String.intercalate "," items ++ "]"

def jsonRow (row : Operation × OutcomeCounts) : String :=
  let (operation, counts) := row
  jsonObject
    [("op", jsonText operation.name), ("ok", jsonNatural counts.ok),
     ("not_found", jsonNatural counts.notFound),
     ("failed", jsonNatural counts.failed)]

def Line.json : Line → String
  | .report r =>
      jsonObject
        [("phase", jsonText r.phase.name),
         ("threads", jsonNatural r.threads),
         ("operations", jsonNatural r.operations),
         ("ops", jsonList (r.rows.map jsonRow))]
  | .sample s =>
      jsonObject
        [("lookups", jsonNatural s.lookups.toNat),
         ("ram_hit_ratio", jsonReal s.ramHitRatio),
         ("nvm_hit_ratio", jsonReal s.nvmHitRatio),
         ("nvm_bytes_written", jsonReal s.nvmBytesWritten),
         ("nvm_bytes_read", jsonReal s.nvmBytesRead)]

def usage : String :=
  "Usage: [OPTIONS]\n\n" ++
  "  -P, --property-file <FILE>  Property file, may be repeated; later files override\n" ++
  "  -p, --property <KEY=VALUE>  Single property, applied after the files\n" ++
  "      --load                  Run the load phase only\n" ++
  "      --run                   Run the transaction phase only\n" ++
  "  -t, --threads <N>           Workers, 1 by default\n" ++
  "  -s, --status <SECONDS>      Accepted; samples are printed after each phase\n" ++
  "      --seed <N>              Random seed; 0 picks one\n" ++
  "  -h, --help                  Print this text\n" ++
  "  -V, --version               Print the version"

def version : String := "0.1.0"

end TieredCache.CommandLine
