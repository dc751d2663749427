import TieredCache.CommandLine.Arguments
import TieredCache.CommandLine.Files
import TieredCache.Phase.Execution

/-!
# Running the benchmark

A run collects its properties from files and from the command line, builds a
store and a workload from them, and executes one phase or both.  It is a
function of the arguments, the files, and a seed for runs that name none.
-/

namespace TieredCache.CommandLine

/-! ## Failures -/

inductive Failure where
  | noThreads
  | unreadableFile (path : String) (cause : FileError)
  | badFile (path : String) (cause : SettingsError)
  | settings (cause : SettingsError)
  | workload (cause : WorkloadError)
  | store (cause : StoreError)
  | phase (cause : PhaseError)

namespace Failure

def chain : Failure → List String
  | .noThreads => ["--threads must be at least 1"]
  | .unreadableFile path cause =>
      [s!"reading property file {path}", cause.message]
  | .badFile path cause => [s!"parsing property file {path}", cause.message]
  | .settings cause => [cause.message]
  | .workload cause => [cause.message]
  | .store cause => cause.chain
  | .phase cause => cause.chain

def numbered (first : Nat) : List String → List String
  | [] => []
  | cause :: rest => s!"\n    {first}: {cause}" :: numbered (first + 1) rest

/-- The outermost message, and under it the causes; a single one has no
number. -/
def layOut : List String → String
  | [] => "Error: "
  | [message] => s!"Error: {message}"
  | [message, cause] => s!"Error: {message}\n\nCaused by:\n    {cause}"
  | message :: causes =>
      s!"Error: {message}\n\nCaused by:" ++ String.join (numbered 0 causes)

def message (failure : Failure) : String := layOut failure.chain

end Failure

/-! ## Properties -/

def readFiles (files : Files) (properties : Properties) :
    List String → Except Failure Properties
  | [] => .ok properties
  | path :: rest =>
      match files path with
      | .error e => .error (.unreadableFile path e)
      | .ok text =>
          match Properties.parse text with
          | .error e => .error (.badFile path e)
          | .ok more => readFiles files (properties.extend more) rest

/-- All properties, those of the command line after those of the files. -/
def Options.collect (options : Options) (files : Files) :
    Except Failure Properties :=
  match readFiles files Properties.empty options.propertyFiles with
  | .error failure => .error failure
  | .ok properties =>
      .ok (options.properties.foldl
        (fun properties (key, value) => properties.set key value) properties)

/-! ## Plans -/

structure Plan where
  bench : Bench
  phases : List Phase
  threads : Nat
  seed : UInt64

/-- Both phases, unless exactly one is asked for. -/
def Options.phases (options : Options) : List Phase :=
  match options.load, options.run with
  | true, false => [.load]
  | false, true => [.run]
  | _, _ => [.load, .run]

def Options.plan (options : Options) (files : Files) (freshSeed : UInt64) :
    Except Failure Plan :=
  let threads := options.threads.getD 1
  let seed := options.seed.getD 0
  if threads = 0 then .error .noThreads
  else
    match options.collect files with
    | .error failure => .error failure
    | .ok properties =>
        match Settings.ofProperties properties with
        | .error e => .error (.settings e)
        | .ok settings =>
            let keys : KeySpace :=
              ⟨Bytes.ofString settings.scan.stem, settings.scan.width.toNat⟩
            match Workload.ofProperties properties keys with
            | .error e => .error (.workload e)
            | .ok workload =>
                match Store.create settings with
                | .error e => .error (.store e)
                | .ok store => .ok
                    { bench := ⟨store, workload⟩
                      phases := options.phases
                      threads := threads.toNat
                      seed := if seed = 0 then freshSeed else seed }

/-! ## Output -/

inductive Line where
  | report (report : Report)
  | sample (sample : Sample)

inductive Ending where
  | finished
  | refused (refusal : Refusal)
  | failed (failure : Failure)

namespace Ending

def exitCode : Ending → Nat
  | .finished | .refused .help | .refused .version => 0
  | .failed _ => 1
  | .refused _ => 2

def message? : Ending → Option String
  | .failed failure => some failure.message
  | .refused (.badProperty text) =>
      some s!"expected key=value, got {Text.quote text}"
  | _ => none

end Ending

structure Output where
  lines : List Line
  ending : Ending

/-- Executes phases one after another; each finished one adds its report and a
sample to the lines so far, which are in reverse. -/
def executeFrom (threads : Nat) (seed : UInt64) (lines : List Line)
    (bench : Bench) : List Phase → Output
  | [] => ⟨lines.reverse, .finished⟩
  | phase :: rest =>
      match bench.execute Generator phase threads seed with
      | (.error e, _) => ⟨lines.reverse, .failed (.phase e)⟩
      | (.ok report, bench) =>
          let sample := bench.store.sample
          executeFrom threads seed (.sample sample :: .report report :: lines)
            bench rest

def Plan.execute (plan : Plan) : Output :=
  executeFrom plan.threads plan.seed [] plan.bench plan.phases

def run (arguments : List String) (files : Files) (freshSeed : UInt64) :
    Output :=
  match Options.ofArguments arguments with
  | .error refusal => ⟨[], .refused refusal⟩
  | .ok options =>
      match options.plan files freshSeed with
      | .error failure => ⟨[], .failed failure⟩
      | .ok plan => plan.execute

end TieredCache.CommandLine
