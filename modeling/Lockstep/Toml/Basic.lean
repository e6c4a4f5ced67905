import Lockstep.Decimal.Nearest

/-!
# TOML values

A document is a tree of tables. Each table knows how it came about, which
decides what may be added to it later.
-/

namespace Lockstep.Toml

/-- How a table came about. -/
inductive Origin where
  /-- by its own header, or as the whole document -/
  | header
  /-- on the way to a table with a header -/
  | implied
  /-- on the way to a dotted key -/
  | dotted
  /-- as a value in braces, which is complete -/
  | inline
  deriving DecidableEq, Repr

/-- A value of a document. -/
inductive Node where
  | string (s : String)
  | int (i : Int)
  | float (x : Binary64)
  | bool (b : Bool)
  | dateTime
  | array (items : List Node)
  | table (origin : Origin) (entries : List (String × Node))
  /-- tables under headers in double brackets; more may follow -/
  | tables (elements : List (List (String × Node)))

/-- The entries of a table, in the order of their definition. -/
abbrev Entries := List (String × Node)

namespace Entries

def find? (key : String) : Entries → Option Node
  | [] => none
  | (k, v) :: r => if k = key then some v else find? key r

/-- Changes the value of a key, or adds one at the end. -/
def alter (key : String) (f : Option Node → Option Node) : Entries → Option Entries
  | [] => (f none).map fun v => [(key, v)]
  | (k, v) :: r =>
    if k = key then (f (some v)).map fun v => (k, v) :: r
    else (alter key f r).map ((k, v) :: ·)

/-- Adds a key that must be new. -/
def add (key : String) (v : Node) : Entries → Option Entries :=
  alter key fun
    | none => some v
    | some _ => none

/-- Changes the table at the end of a path. Missing tables on the way are made
with the given origin; of several tables under one name the last is taken. A
dotted key passes neither a table in braces nor one with a header; a header
passes all but those in braces. -/
def descend (made : Origin) (f : Origin → Entries → Option Entries) :
    List String → Origin → Entries → Option Entries
  | [], origin, es => f origin es
  | key :: path, _, es =>
    alter key (fun
      | none => (descend made f path made []).map (.table made)
      | some (.table origin inner) =>
        if origin = .inline ∨ made = .dotted ∧ origin = .header then none
        else (descend made f path origin inner).map (.table origin)
      | some (.tables ts) =>
        match ts.getLast? with
        | none => none
        | some t => (descend made f path .header t).map fun t => .tables (ts.dropLast ++ [t])
      | some _ => none) es

end Entries

/-- A key with the dotted path to it. -/
structure Key where
  path : List String
  name : String
  deriving DecidableEq

/-- A line, or a part in braces, that gives a key its value. -/
abbrev Pair := Key × Node

/-- Adds the value of a dotted key. The path to it must not end in a table that
was made in another way. -/
def Entries.put (origin : Origin) (es : Entries) (p : Pair) : Option Entries :=
  descend .dotted (fun origin es =>
    if origin = .dotted ↔ p.1.path = [] then none else add p.1.name p.2 es) p.1.path origin es

/-- Adds values in order. -/
def Entries.putAll (origin : Origin) : Entries → List Pair → Option Entries
  | es, [] => some es
  | es, p :: r => (put origin es p).bind (putAll origin · r)

namespace Node

/-- The items of an array. -/
def items? : Node → Option (List Node)
  | array vs => some vs
  | tables ts => some (ts.map (table .header))
  | _ => none

end Node

end Lockstep.Toml
