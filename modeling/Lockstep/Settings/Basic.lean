import Lockstep.Host
import Lockstep.Text.Blank
import Lockstep.Toml.Document
import Lockstep.Toml.Record

/-!
# Settings

Settings come from files and from the environment. Each source may leave a
setting open; the environment goes before the files, and a file in the working
directory before the user's own.
-/

namespace Lockstep

/-- The hardware whose launches are emulated. -/
inductive Target where
  | generic
  | metal
  | hip
  deriving DecidableEq, Repr

namespace Target

def device : Target → String
  | generic => "GENERIC"
  | metal => "METAL"
  | hip => "HIP"

def hasTensorCores : Target → Bool
  | generic => false
  | metal | hip => true

/-- The tag of the target's tensor-core instructions. -/
def tensorCoreTag? : Target → Option String
  | generic => none
  | metal => some "__metal_wmma<float2,float2,float2>"
  | hip => some "__builtin_amdgcn_wmma_f32_16x16x16_f16_w32"

/-- Names are read without regard to case or to blanks around them. An unknown
name stands for no particular hardware. -/
def ofName (name : String) : Target :=
  match lowerText (trimText name) with
  | "metal" => metal
  | "hip" => hip
  | _ => generic

end Target

/-- The settings of one source; what it leaves open is `none`. -/
structure Settings where
  /-- log every executed instruction -/
  trace? : Option Bool
  /-- name of the emulated target -/
  emulate? : Option String
  /-- where manifests are looked for -/
  manifestDirectory? : Option String
  deriving DecidableEq

namespace Settings

def none : Settings := ⟨.none, .none, .none⟩

def trace (s : Settings) : Bool := s.trace?.getD false

def target (s : Settings) : Target :=
  match s.emulate? with
  | .none => .generic
  | some name => .ofName name

def manifestDirectory (s : Settings) : String := s.manifestDirectory?.getD "manifests"

/-- What the settings of `s` leave open is taken from `t`. -/
def orElse (s t : Settings) : Settings :=
  ⟨s.trace? <|> t.trace?, s.emulate? <|> t.emulate?,
    s.manifestDirectory? <|> t.manifestDirectory?⟩

/-- Reads a settings file. A text with a mistake gives nothing at all. -/
def parse? (text : String) : Option Settings := do
  let es ← Toml.parse? text
  return ⟨← es.optional "trace" Toml.Node.bool?, ← es.optional "emulate" Toml.Node.string?,
    ← es.optional "manifest_dir" Toml.Node.string?⟩

/-- A variable is a flag that is on unless it is empty, `0` or `false`. -/
def flag (text : String) : Bool :=
  let t := trimText text
  t != "" && t != "0" && t != "false"

/-- The settings of the environment. -/
def ofVariables (lookup : String → Option String) : Settings :=
  let flag? (name : String) : Option Bool := (lookup name).map flag
  { trace? := flag? "UOP_EMU_TRACE" <|> flag? "TRACE"
    emulate? :=
      if flag? "EMULATE_METAL" = some true then some "metal"
      else if flag? "EMULATE_HIP" = some true then some "hip"
      else .none
    manifestDirectory? := lookup "UOP_EMU_MANIFEST_DIR" }

/-- The variables that hold settings. -/
def variableNames : List String :=
  ["UOP_EMU_TRACE", "TRACE", "EMULATE_METAL", "EMULATE_HIP", "UOP_EMU_MANIFEST_DIR"]

end Settings

end Lockstep
