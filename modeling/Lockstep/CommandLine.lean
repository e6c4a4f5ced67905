import Lockstep.Settings.Load
import Lockstep.Settings.Sample
import Lockstep.Suite
import Lockstep.Text.Pad

/-!
# Command line

What the program writes and with which status it ends, for its arguments and the
machine it runs on.
-/

namespace Lockstep

namespace CommandLine

def usage : String :=
  "Usage: uop-emu <command> [options]

Commands:
  run <manifest.toml>... [--time]   Run kernel manifests and check their outputs
  suite [dir] [--time]              Run every *.toml manifest in a directory
  config                            Show configuration sources and a sample file

Options:
  --time      Report wall-clock time per launch
  -h, --help  Show this help

Environment:
  TRACE=1, UOP_EMU_TRACE=1          Log every executed instruction
  EMULATE_METAL=1, EMULATE_HIP=1    Emulate a tensor-core target
  UOP_EMU_MANIFEST_DIR              Default directory for `suite`"

/-- Why the program ends without success. -/
inductive Error where
  | unknownOption (text : String)
  | unknownCommand (text : String)
  | noManifest
  | kernelsFailed (failed total : Nat)
  | noManifestsIn (directory : String)
  | manifestsFailed (failed : Nat)
  | failure (f : Failure)
  deriving DecidableEq

/-- The error and its causes, one text each. -/
def Error.chain : Error → List String
  | unknownOption s => [s!"unknown option '{s}'\n\n{usage}"]
  | unknownCommand s => [s!"unknown command '{s}'\n\n{usage}"]
  | noManifest => [s!"run needs at least one manifest\n\n{usage}"]
  | kernelsFailed f n => [s!"{f} of {n} kernels failed"]
  | noManifestsIn d => [s!"no manifests found in {d}"]
  | manifestsFailed n => [s!"{n} manifests failed"]
  | failure f => f.chain

/-- Puts spaces before every line but the first. -/
def indented (width : Nat) (s : String) : String :=
  String.ofList <| s.toList.flatMap fun c =>
    if c = '\n' then '\n' :: List.replicate width ' ' else [c]

/-- Causes are numbered when there are several. -/
def causeLines : List String → List String
  | [] => []
  | [cause] => ["    " ++ indented 4 cause]
  | causes => causes.zipIdx.map fun (cause, n) => padLeft 5 (toString n) ++ ": " ++ indented 7 cause

/-- The text of lines that each end in a line break. -/
def unlines (lines : List String) : String :=
  String.join (lines.map (· ++ "\n"))

def Error.report (e : Error) : String :=
  match e.chain with
  | [] => ""
  | [outer] => unlines [s!"Error: {outer}"]
  | outer :: causes => unlines (s!"Error: {outer}" :: "" :: "Caused by:" :: causeLines causes)

/-- Everything written to standard output, and the error at the end if there is
one. -/
structure Outcome where
  output : String
  error : Option Error
  deriving DecidableEq

def Outcome.status (o : Outcome) : Nat :=
  if o.error.isNone then 0 else 1

def Outcome.errorOutput (o : Outcome) : String :=
  match o.error with
  | none => ""
  | some e => e.report

/-- Nanoseconds as milliseconds with three places. -/
def milliseconds (nanoseconds : Nat) : String :=
  let micros := (nanoseconds + 500) / 1000
  let places := String.ofList ((toString (1000 + micros % 1000)).toList.drop 1)
  s!"{micros / 1000}.{places}"

def reportLines (t : Timed) : List String :=
  let r := t.report
  let verdict := if r.passed then "PASS" else "FAIL"
  let time := if r.timed then s!", {milliseconds t.nanoseconds} ms" else ""
  let counts := s!"{r.tally.correct}/{r.tally.total} correct, {r.instructions} instructions"
  s!"{verdict} {padRight 24 r.name} {counts}{time}" ::
    match r.tally.mismatch with
    | none => []
    | some m => [s!"     first mismatch: {m.message}"]

/-- What is asked for. -/
inductive Request where
  | help
  | run (paths : List String)
  | suite (directory : Option String)
  | config
  deriving DecidableEq

def isOption (s : String) : Bool := s.toList.head? == some '-'

/-- Reads the arguments. Help goes before everything else, and a mistake in the
options before one in the command. The flag is whether times are asked for. -/
def Request.ofArguments (args : List String) : Except Error (Request × Bool) :=
  match args with
  | [] => .ok (.help, false)
  | command :: rest =>
    if args.contains "--help" || args.contains "-h" then .ok (.help, false)
    else
      match rest.find? fun a => isOption a && a != "--time" with
      | some a => .error (.unknownOption a)
      | none =>
        let wait := args.contains "--time"
        let operands := rest.filter fun a => !isOption a
        match command with
        | "run" =>
          if operands.isEmpty then .error .noManifest else .ok (.run operands, wait)
        | "suite" => .ok (.suite operands.head?, wait)
        | "config" => .ok (.config, wait)
        | _ => .error (.unknownCommand command)

/-- The outcome of a list of manifests. -/
def runOutcome (total : Nat) (ts : List Timed) (f : Option Failure) : Outcome :=
  let failed := (ts.filter fun t => !t.report.passed).length
  { output := unlines (ts.flatMap reportLines)
    error :=
      match f with
      | some f => some (.failure f)
      | none => if failed = 0 then none else some (.kernelsFailed failed total) }

/-- The manifest ran and passed. -/
def isPass : Except Failure Timed → Bool
  | .ok t => t.report.passed
  | .error _ => false

def entryLines (path : String) : Except Failure Timed → List String
  | .ok t => reportLines t
  | .error f => [s!"ERROR {path}: {f.message}"]

/-- The outcome of the manifests of a directory. -/
def suiteOutcome (directory : String) (rs : List (String × Except Failure Timed)) : Outcome :=
  let total := rs.length
  let passed := (rs.filter fun r => isPass r.2).length
  if total = 0 then ⟨"", some (.noManifestsIn directory)⟩
  else
    { output := unlines <|
        [s!"Running {total} manifests from {directory}", ""] ++
          (rs.flatMap fun r => entryLines r.1 r.2) ++ ["", s!"{passed}/{total} passed"]
      error := if passed = total then none else some (.manifestsFailed (total - passed)) }

def configLines (userDirectory : Option String) (s : Settings) : List String :=
  let user := match userDirectory with
    | some d => Settings.userPath d
    | none => "(no config directory)"
  let tag := match s.target.tensorCoreTag? with
    | some t => [s!"wmma tag:     {t}"]
    | none => []
  ["Configuration", "=============", s!"User config:  {user}", "Local config: ./uop-emu.toml", "",
    s!"trace:        {s.trace}", s!"target:       {s.target.device}",
    s!"tensor cores: {s.target.hasTensorCores}"] ++ tag ++
    [s!"manifest dir: {s.manifestDirectory}", "", "Sample config:", "--------------"]

variable {m : Type → Type} [Monad m] (h : Host m)

def answer (limit : Nat) (wait : Bool) : Request → m Outcome
  | .help => return ⟨unlines [usage], none⟩
  | .config => do
    let s ← Settings.load h
    return ⟨unlines (configLines (← h.userDirectory?) s) ++ Settings.sample, none⟩
  | .run paths => do
    let (ts, f) ← Suite.runFiles h limit wait paths
    return runOutcome paths.length ts f
  | .suite d => do
    let directory ← match d with
      | some d => pure d
      | none => do pure (← Settings.load h).manifestDirectory
    match ← Suite.runDirectory h limit wait directory with
    | .error f => return ⟨"", some (.failure (f.during (.suite directory)))⟩
    | .ok rs => return suiteOutcome directory rs

/-- Answers the arguments. No grid point executes more than `limit`
instructions. -/
def execute (limit : Nat) (args : List String) : m Outcome :=
  match Request.ofArguments args with
  | .error e => return ⟨"", some e⟩
  | .ok (r, wait) => answer h limit wait r

end CommandLine

end Lockstep
