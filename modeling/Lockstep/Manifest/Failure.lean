import Lockstep.Fault

/-!
# Failures

Why a manifest could not be read or run: the cause, and what was being done when
it struck, from the whole to the part.
-/

namespace Lockstep

/-- Why a file or a directory cannot be read. -/
inductive FileError where
  | absent
  | notDirectory
  | isDirectory
  | nameTooLong
  | denied
  /-- no name of a file holds the character NUL -/
  | hasNul
  | notText
  | other (message : String)
  deriving DecidableEq

def FileError.message : FileError → String
  | absent => "No such file or directory (os error 2)"
  | notDirectory => "Not a directory (os error 20)"
  | isDirectory => "Is a directory (os error 21)"
  | nameTooLong => "File name too long (os error 36)"
  | denied => "Permission denied (os error 13)"
  | hasNul => "file name contained an unexpected NUL byte"
  | notText => "stream did not contain valid UTF-8"
  | other m => m

/-- A part that instructions of a kind need. -/
inductive Part where
  | name | size | dim | value | op | index | tag
  deriving DecidableEq

def Part.text : Part → String
  | name => "a name"
  | size => "a size"
  | dim => "a dim"
  | value => "a value"
  | op => "an op"
  | index => "an index"
  | tag => "a tag"

/-- What goes wrong with a manifest. -/
inductive Cause where
  | file (e : FileError)
  /-- the text is no TOML document of a manifest -/
  | document
  | unknownName (e : UnknownName)
  | unknownDType (e : UnknownDType)
  | missing (k : Kind) (p : Part)
  | valueCount (buffer : String) (values size : Nat)
  | conversion (e : ConvertError)
  | fault (f : Fault)
  /-- the run was cut off -/
  | unfinished
  deriving DecidableEq

def Cause.message : Cause → String
  | file e => e.message
  | document => "not a manifest in TOML"
  | unknownName e => e.message
  | unknownDType e => e.message
  | missing k p => s!"{k} needs {p.text}"
  | valueCount b n size => s!"buffer '{b}' lists {n} values for size {size}"
  | conversion e => e.message
  | fault f => f.message
  | unfinished => "the run was cut off"

/-- What was being done. -/
inductive Stage where
  | readManifest (path : String)
  | parseManifest (path : String)
  | readDirectory (path : String)
  | suite (path : String)
  | kernel (name : String)
  | uop (pc : Nat)
  | buffer (name : String)
  deriving DecidableEq

def Stage.message : Stage → String
  | readManifest p => s!"Failed to read manifest {p}"
  | parseManifest p => s!"Failed to parse manifest {p}"
  | readDirectory p => s!"Failed to read manifest directory {p}"
  | suite p => s!"suite in {p}"
  | kernel n => s!"kernel '{n}'"
  | uop pc => s!"uop {pc}"
  | buffer n => s!"buffer '{n}'"

/-- A cause with the stages it happened in. -/
structure Failure where
  /-- outermost first -/
  stages : List Stage
  cause : Cause
  deriving DecidableEq

namespace Failure

def ofCause (c : Cause) : Failure := ⟨[], c⟩

/-- The same failure as a part of something larger. -/
def during (s : Stage) (f : Failure) : Failure := { f with stages := s :: f.stages }

/-- The stages and the cause, one text each. -/
def chain (f : Failure) : List String :=
  f.stages.map (·.message) ++ [f.cause.message]

def message (f : Failure) : String :=
  String.intercalate ": " f.chain

end Failure

/-- The result of `x`, with the stage added to a failure. -/
def during {α : Type} (s : Stage) (x : Except Failure α) : Except Failure α :=
  x.mapError (.during s)

/-- The result of `x`, with an error as a cause. -/
def causing {ε α : Type} (cause : ε → Cause) (x : Except ε α) : Except Failure α :=
  x.mapError fun e => .ofCause (cause e)

end Lockstep
