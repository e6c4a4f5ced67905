import Lockstep.Grid
import Lockstep.Literal
import Lockstep.Toml.Document
import Lockstep.Toml.Record

/-!
# Manifests

A manifest describes one launch from end to end: the program, the buffers with
their first contents, the extent of the launch and its values, and what the
buffers should hold afterwards.
-/

namespace Lockstep

/-- How the first contents of a buffer are made. -/
inductive Pattern where
  | zeros
  | sequential (start step : Binary64)
  | constant (value : Literal)
  | values (values : List Literal)
  deriving DecidableEq

/-- One buffer of a launch. -/
structure BufferEntry where
  name : String
  /-- text of the element type -/
  dtype : String
  /-- number of elements -/
  size : Nat
  pattern : Pattern
  /-- contents after the launch, if they are to be compared -/
  expect : Option (List Literal)
  deriving DecidableEq

/-- One instruction. Which of the optional parts it needs depends on its
kind. -/
structure UopEntry where
  kind : String
  dtype : Option String
  src : List Nat
  name : Option String
  size : Option Nat
  dim : Option Nat
  value : Option Literal
  op : Option String
  index : Option Nat
  tag : Option String
  deriving DecidableEq

/-- A kernel with its launch and what is expected of it. -/
structure Manifest where
  name : String
  description : String
  /-- extent of the grid -/
  global : Point
  /-- extent of the warp -/
  warp : Point
  launchValues : List Literal
  buffers : List BufferEntry
  uops : List UopEntry
  deriving DecidableEq

open Toml (Node Entries)

namespace Pattern

/-- A field of a pattern that is listed without names has no field beyond the
known ones. -/
def fields? (names : List String) (rest : List Node) : Option Entries :=
  if rest.length ≤ names.length then some (names.zip rest) else none

def ofFields? (kind : String) (fields : List String → Option Entries) : Option Pattern :=
  match kind with
  | "zeros" => (fields []).map fun _ => zeros
  | "sequential" => do
    let es ← fields ["start", "step"]
    return sequential (← es.withDefault "start" Node.float? .zero)
      (← es.withDefault "step" Node.float? .one)
  | "constant" => do
    let es ← fields ["value"]
    return constant (← es.required "value" Node.literal?)
  | "values" => do
    let es ← fields ["values"]
    return values (← es.required "values" (Node.list? Node.literal?))
  | _ => none

/-- A pattern names its kind under `type`, or in the first place of an array. -/
def ofToml? : Node → Option Pattern
  | .table _ es => do ofFields? (← Entries.required es "type" Node.string?) fun _ => some es
  | v =>
    match v.items? with
    | some (kind :: rest) => do ofFields? (← kind.string?) fun names => fields? names rest
    | _ => none

end Pattern

/-- Three extents; further ones are ignored. -/
def Point.ofToml? (v : Node) : Option Point :=
  match v.items? with
  | some (x :: y :: z :: _) => do return ⟨← x.nat?, ← y.nat?, ← z.nat?⟩
  | _ => none

def BufferEntry.ofToml? (v : Node) : Option BufferEntry := do
  let es ← v.record? ["name", "dtype", "size", "pattern", "expect"]
  return {
    name := ← es.required "name" Node.string?
    dtype := ← es.required "dtype" Node.string?
    size := ← es.required "size" Node.nat?
    pattern := ← es.withDefault "pattern" Pattern.ofToml? .zeros
    expect := ← es.optional "expect" (Node.list? Node.literal?) }

def UopEntry.ofToml? (v : Node) : Option UopEntry := do
  let es ← v.record?
    ["kind", "dtype", "src", "name", "size", "dim", "value", "op", "index", "tag"]
  return {
    kind := ← es.required "kind" Node.string?
    dtype := ← es.optional "dtype" Node.string?
    src := ← es.withDefault "src" (Node.list? Node.nat?) []
    name := ← es.optional "name" Node.string?
    size := ← es.optional "size" Node.nat?
    dim := ← es.optional "dim" Node.nat?
    value := ← es.optional "value" Node.literal?
    op := ← es.optional "op" Node.string?
    index := ← es.optional "index" Node.nat?
    tag := ← es.optional "tag" Node.string? }

namespace Manifest

def unitPoint : Point := ⟨1, 1, 1⟩

def ofEntries? (es : Entries) : Option Manifest := do
  let kernel ← es.required "kernel"
    (Node.record? ["name", "description", "global_size", "local_size", "vals"])
  return {
    name := ← kernel.required "name" Node.string?
    description := ← kernel.withDefault "description" Node.string? ""
    global := ← kernel.withDefault "global_size" Point.ofToml? unitPoint
    warp := ← kernel.withDefault "local_size" Point.ofToml? unitPoint
    launchValues := ← kernel.withDefault "vals" (Node.list? Node.literal?) []
    buffers := ← es.withDefault "buffers" (Node.list? BufferEntry.ofToml?) []
    uops := ← es.required "uops" (Node.list? UopEntry.ofToml?) }

/-- Reads a manifest; a text that is no TOML document, or not one of a
manifest, gives none. -/
def parse? (text : String) : Option Manifest :=
  (Toml.parse? text).bind ofEntries?

end Manifest

end Lockstep
