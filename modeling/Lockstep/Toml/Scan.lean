/-!
# Scanning

Functions that take characters off the front of a text. Line breaks are line
feeds here; the text is prepared so that no other spelling is left.
-/

namespace Lockstep.Toml

/-- Takes characters off the front, or fails. -/
abbrev Scan := StateT (List Char) Option

/-- A carriage return before a line feed is dropped. -/
def unifyLines : List Char → List Char
  | '\r' :: '\n' :: r => '\n' :: unifyLines r
  | c :: r => c :: unifyLines r
  | [] => []

def isSpace (c : Char) : Bool := c == ' ' || c == '\t'

/-- A tab or any character that is not a control character. -/
def isPrintable (c : Char) : Bool :=
  c == '\t' || (decide (0x20 ≤ c.toNat) && c != '\x7f')

def isBareKey (c : Char) : Bool :=
  c.isAlphanum || c == '_' || c == '-'

namespace Scan

def fail {α : Type} : Scan α := fun _ => none

def peek : Scan (Option Char) := fun cs => some (cs.head?, cs)

/-- The number of characters left. -/
def left : Scan Nat := fun cs => some (cs.length, cs)

/-- The characters up to the first that is not of the class. -/
def span (p : Char → Bool) : Scan (List Char) := fun cs => some (cs.span p)

/-- Takes a character if it is the next one. -/
def accept (c : Char) : Scan Bool
  | [] => some (false, [])
  | d :: r => if d = c then some (true, r) else some (false, d :: r)

def expect (c : Char) : Scan Unit := do
  if !(← accept c) then fail

def spaces : Scan Unit := do
  let _ ← span isSpace

/-- Drops spaces, line breaks and comments. -/
def dropFiller (comment : Bool) : List Char → List Char
  | [] => []
  | c :: r =>
    if c = '\n' then dropFiller false r
    else if comment then (if isPrintable c then dropFiller true r else c :: r)
    else if c = '#' then dropFiller true r
    else if isSpace c then dropFiller false r
    else c :: r

def filler : Scan Unit := fun cs => some ((), dropFiller false cs)

/-- Drops the rest of a line, which may hold spaces and a comment only, with
its line break. -/
def dropLine (comment : Bool) : List Char → Option (List Char)
  | [] => some []
  | c :: r =>
    if c = '\n' then some r
    else if comment then (if isPrintable c then dropLine true r else none)
    else if c = '#' then dropLine true r
    else if isSpace c then dropLine false r
    else none

def endLine : Scan Unit := fun cs => (dropLine false cs).map ((), ·)

end Scan

end Lockstep.Toml
