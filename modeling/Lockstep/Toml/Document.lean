import Lockstep.Toml.Scalar
import Lockstep.Toml.Text

/-!
# TOML documents

A document is read in two stages: its text gives sections, each a header with
the pairs below it, and the sections in order give the tree of tables.
-/

namespace Lockstep.Toml

/-- Arrays and tables in braces nest at most this deep, and a key has at most
this many parts. -/
def maxDepth : Nat := 79

namespace Scan

/-- One part of a key. -/
def keyPart : Scan String := do
  match ← peek with
  | some '"' | some '\'' => shortText
  | _ =>
    let cs ← span isBareKey
    if cs.isEmpty then fail else return String.ofList cs

/-- Parts with points between them, of which there are at most so many. -/
def key : Nat → Scan Key
  | 0 => fail
  | n + 1 => do
    spaces
    let part ← keyPart
    spaces
    if ← accept '.' then
      let k ← key n
      return { k with path := part :: k.path }
    else return ⟨[], part⟩

def pair (value : Scan Node) : Scan Pair := do
  let k ← key maxDepth
  expect '='
  spaces
  return (k, ← value)

/-- The items of an array, after its bracket or a comma, up to the closing
bracket. There are fewer of them than characters. -/
def items (value : Scan Node) : Nat → Scan (List Node)
  | 0 => fail
  | n + 1 => do
    filler
    if ← accept ']' then return []
    let v ← value
    filler
    if ← accept ',' then return v :: (← items value n)
    expect ']'
    return [v]

/-- The pairs of a table in braces, up to the closing brace. -/
def members (value : Scan Node) : Nat → Scan (List Pair)
  | 0 => fail
  | n + 1 => do
    let p ← pair value
    spaces
    if ← accept ',' then return p :: (← members value n)
    expect '\x7d'
    return [p]

def inlineTable (value : Scan Node) : Scan Node := do
  spaces
  if ← accept '\x7d' then return .table .inline []
  let ps ← members value (← left)
  match Entries.putAll .inline [] ps with
  | some es => return .table .inline es
  | none => fail

/-- A value in which arrays and tables nest at most so deep. -/
def value : Nat → Scan Node
  | 0 => do
    match ← peek with
    | some '"' | some '\'' => return .string (← text)
    | _ => token
  | depth + 1 => do
    match ← peek with
    | some '"' | some '\'' => return .string (← text)
    | some '[' =>
      expect '['
      return .array (← items (value depth) (← left))
    | some '\x7b' =>
      expect '\x7b'
      inlineTable (value depth)
    | _ => token

end Scan

/-- What a header says of the pairs below it. -/
inductive Header where
  /-- the document itself -/
  | top
  | table (key : Key)
  /-- one more table under the name -/
  | element (key : Key)

/-- A header with the pairs below it, up to the next header. -/
structure Section where
  header : Header
  pairs : List Pair

namespace Scan

/-- The lines from here on, as the pairs before the next header and the sections
that follow. There are at most as many lines as characters, and one more. -/
def body : Nat → Scan (List Pair × List Section)
  | 0 => fail
  | n + 1 => do
    spaces
    match ← peek with
    | none => return ([], [])
    | some '\n' | some '#' =>
      endLine
      body n
    | some '[' =>
      expect '['
      let element ← accept '['
      let k ← key maxDepth
      expect ']'
      if element then expect ']'
      endLine
      let (ps, ss) ← body n
      return ([], ⟨if element then .element k else .table k, ps⟩ :: ss)
    | some _ =>
      let p ← pair (value maxDepth)
      endLine
      let (ps, ss) ← body n
      return (p :: ps, ss)

end Scan

/-- A mark of the byte order may stand before a text. -/
def dropMark : List Char → List Char
  | '\uFEFF' :: r => r
  | cs => cs

/-- The sections of a text, the first without a header. -/
def sections? (text : String) : Option (List Section) := do
  let cs := unifyLines (dropMark text.toList)
  let ((ps, ss), _) ← (Scan.body (cs.length + 2)).run cs
  return ⟨.top, ps⟩ :: ss

namespace Entries

/-- Adds a section. A table has one header at most, and none if dotted keys made
it. -/
def addSection (es : Entries) (s : Section) : Option Entries :=
  match s.header with
  | .top => putAll .header es s.pairs
  | .table k =>
    descend .implied (fun _ => alter k.name fun
      | none => (putAll .header [] s.pairs).map (.table .header)
      | some (.table .implied inner) => (putAll .header inner s.pairs).map (.table .header)
      | some _ => none) k.path .header es
  | .element k =>
    descend .implied (fun _ => alter k.name fun
      | none => (putAll .header [] s.pairs).map fun t => .tables [t]
      | some (.tables ts) => (putAll .header [] s.pairs).map fun t => .tables (ts ++ [t])
      | some _ => none) k.path .header es

end Entries

/-- The tree of a document. -/
def parse? (text : String) : Option Entries :=
  (sections? text).bind fun ss => ss.foldlM Entries.addSection []

end Lockstep.Toml
