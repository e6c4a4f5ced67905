import Lockstep.Host
import Lockstep.Manifest.Report
import Lockstep.Text.Numeral

/-!
# Suites

Manifests are run one after the other, from a list of paths or from a directory
in the order of their names. None of them has an effect on another; a crash is taken
for a failure of its own manifest.
-/

namespace Lockstep

/-- A report with the nanoseconds the run took. -/
structure Timed where
  report : Report
  nanoseconds : Nat
  deriving DecidableEq

namespace Suite

/-- The name has the ending `toml` after something else. -/
def isManifestName (name : String) : Bool :=
  match splitLast? '.' name.toList with
  | some (stem, ending) => !stem.isEmpty && ending == ['t', 'o', 'm', 'l']
  | none => false

/-- The manifests among the names of a directory, in ascending order. -/
def manifestNames (names : List String) : List String :=
  (names.filter isManifestName).mergeSort

variable {m : Type → Type} [Monad m] (h : Host m)

/-- Reads the manifest at a path. -/
def readManifest (path : String) : m (Except Failure Manifest) := do
  match ← h.readText path with
  | .error e => return .error (.during (.readManifest path) (.ofCause (.file e)))
  | .ok text =>
    match Manifest.parse? text with
    | some mf => return .ok mf
    | none => return .error (.during (.parseManifest path) (.ofCause .document))

/-- Runs the manifest at a path, of at most `limit` instructions for each grid
point. -/
def runFile (limit : Nat) (wait : Bool) (path : String) : m (Except Failure Timed) := do
  match ← readManifest h path with
  | .error f => return .error f
  | .ok mf =>
    let (r, nanoseconds) ← h.measure fun _ => mf.run limit wait
    return during (.kernel mf.name) (r.map (⟨·, nanoseconds⟩))

/-- Runs manifests in order up to the first that fails. -/
def runFiles (limit : Nat) (wait : Bool) : List String → m (List Timed × Option Failure)
  | [] => return ([], none)
  | path :: rest => do
    match ← runFile h limit wait path with
    | .error f => return ([], some f)
    | .ok t =>
      let (ts, f) ← runFiles limit wait rest
      return (t :: ts, f)

/-- Runs every manifest, whatever comes of the others. -/
def runEach (limit : Nat) (wait : Bool) : List String →
    m (List (String × Except Failure Timed))
  | [] => return []
  | path :: rest => do
    let r ← runFile h limit wait path
    return (path, r) :: (← runEach limit wait rest)

/-- Runs every manifest of a directory. -/
def runDirectory (limit : Nat) (wait : Bool) (directory : String) :
    m (Except Failure (List (String × Except Failure Timed))) := do
  match ← h.list directory with
  | .error e => return .error (.during (.readDirectory directory) (.ofCause (.file e)))
  | .ok names =>
    return .ok (← runEach h limit wait ((manifestNames names).map (joinPath directory)))

end Suite

end Lockstep
