import Lockstep.CommandLine

/-!
# Program

The command line on the machine that it is started on.
-/

namespace Lockstep

/-- More instructions than a grid point ever executes. -/
def instructionLimit : Nat := 0x4000000000000000

/-- The number of a system error, which some services negate. -/
def errorNumber (code : UInt32) : UInt32 :=
  if code < 0x80000000 then code else 0 - code

/-- A name with a NUL is refused as an invalid argument, and a text that is not
one with an error that has no number. -/
def fileError (e : IO.Error) : FileError :=
  match e with
  | .noFileOrDirectory .. => .absent
  | .permissionDenied .. => .denied
  | .userError _ => .notText
  | .inappropriateType _ code _ | .invalidArgument _ code _ =>
    match errorNumber code with
    | 20 => .notDirectory
    | 21 => .isDirectory
    | 22 => .hasNul
    | 36 => .nameTooLong
    | _ => .other (toString e)
  | _ => .other (toString e)

/-- The directory of the user's settings, as the environment tells. -/
def settingsDirectory? : IO (Option String) := do
  match ← IO.getEnv "XDG_CONFIG_HOME" with
  | some d =>
    if d.startsWith "/" then return some d
  | none => pure ()
  return (← IO.getEnv "HOME").map (joinPath · ".config")

/-- The names in a directory, seen from the working directory. -/
def namesIn (directory : String) : IO (List String) := do
  let entries ← ((← IO.currentDir) / directory).readDir
  return (entries.map (·.fileName)).toList

def machine : Host IO where
  readText path := do
    match ← (IO.FS.readFile path).toBaseIO with
    | .ok text => return .ok text
    | .error e => return .error (fileError e)
  list directory := do
    match ← (namesIn directory).toBaseIO with
    | .ok names => return .ok names
    | .error e => return .error (fileError e)
  lookup name := IO.getEnv name
  userDirectory? := settingsDirectory?
  measure f := do
    let start ← IO.monoNanosNow
    let a ← IO.lazyPure f
    return (a, (← IO.monoNanosNow) - start)

end Lockstep

def main (args : List String) : IO UInt32 := do
  let o ← Lockstep.CommandLine.execute Lockstep.machine Lockstep.instructionLimit args
  IO.print o.output
  IO.eprint o.errorOutput
  return o.status.toUInt32
