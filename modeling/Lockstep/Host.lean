import Lockstep.Manifest.Failure

/-!
# Hosts

What the command line asks of the machine it runs on: texts of files, names in
directories, variables of the environment, and the time something takes.
-/

namespace Lockstep

/-- The services of a machine, with effects in `m`. -/
structure Host (m : Type → Type) where
  readText : String → m (Except FileError String)
  /-- the names in a directory, in any order -/
  list : String → m (Except FileError (List String))
  /-- the value of a variable of the environment -/
  lookup : String → m (Option String)
  /-- the directory of the user's settings, if there is one -/
  userDirectory? : m (Option String)
  /-- a result with the nanoseconds it took -/
  measure : {α : Type} → (Unit → α) → m (α × Nat)

/-- The path of a name in a directory. -/
def joinPath (directory name : String) : String :=
  match directory.toList.getLast? with
  | none => name
  | some '/' => directory ++ name
  | some _ => directory ++ "/" ++ name

end Lockstep
