import Lockstep.Literal
import Lockstep.Toml.Basic

/-!
# Records in TOML

Typed data from TOML values. A record is a table, or an array that lists its
fields in their order; fields beyond the known ones are ignored.
-/

namespace Lockstep.Toml

namespace Node

def string? : Node → Option String
  | string s => some s
  | _ => none

def bool? : Node → Option Bool
  | bool b => some b
  | _ => none

/-- An integer that is a count or a position. -/
def nat? : Node → Option Nat
  | int i => if 0 ≤ i then some i.toNat else none
  | _ => none

/-- A float, or an integer in its place. -/
def float? : Node → Option Binary64
  | float x => some x
  | int i => some (.ofInt i)
  | _ => none

def literal? : Node → Option Literal
  | bool b => some (.bool b)
  | int i => some (.int i)
  | float x => some (.float x)
  | _ => none

/-- An array of items of one kind. -/
def list? {α : Type} (item : Node → Option α) (v : Node) : Option (List α) := do
  (← v.items?).mapM item

/-- The entries of a record; an array gets the names of the fields. -/
def record? (fields : List String) : Node → Option Entries
  | table _ es => some es
  | v => v.items?.map fields.zip

end Node

namespace Entries

variable {α : Type} (es : Entries) (key : String) (read : Node → Option α)

/-- A field that must be there. -/
def required : Option α := (find? key es).bind read

/-- A field that may be absent, but not wrong. -/
def optional : Option (Option α) :=
  match find? key es with
  | none => some none
  | some v => (read v).map some

def withDefault (a : α) : Option α :=
  (optional es key read).map (·.getD a)

end Entries

end Lockstep.Toml
