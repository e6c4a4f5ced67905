import Lockstep.Settings.Basic

/-!
# Loading settings

Where settings files are looked for, and in which order the sources are asked.
-/

namespace Lockstep.Settings

/-- Name of a settings file in a project. -/
def localName : String := "uop-emu.toml"

/-- Where the user's settings are, in the directory of all of them. -/
def userPath (directory : String) : String :=
  joinPath (joinPath directory "uop-emu") "config.toml"

variable {m : Type → Type} [Monad m] (h : Host m)

/-- The settings of a file; none if it cannot be read or has a mistake. -/
def ofFile? (path : String) : m (Option Settings) := do
  match ← h.readText path with
  | .ok text => return parse? text
  | .error _ => return .none

def ofUser? : m (Option Settings) := do
  match ← h.userDirectory? with
  | some d => ofFile? h (userPath d)
  | .none => return .none

/-- The settings of the working directory, or else those of the directory that
is named in the environment. -/
def ofProject? : m (Option Settings) := do
  match ← ofFile? h localName with
  | some s => return some s
  | .none =>
    match ← h.lookup "CARGO_MANIFEST_DIR" with
    | some d => ofFile? h (joinPath d localName)
    | .none => return .none

/-- The settings of the environment. -/
def ofEnvironment : m Settings := do
  let vs ← variableNames.mapM fun name => do return (name, ← h.lookup name)
  return ofVariables fun name => (vs.find? fun v => v.1 == name).bind (·.2)

/-- The settings of all sources. -/
def load : m Settings := do
  let user ← ofUser? h
  let project ← ofProject? h
  let environment ← ofEnvironment h
  return environment.orElse ((project.getD none).orElse (user.getD none))

end Lockstep.Settings
