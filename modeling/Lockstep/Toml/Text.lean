import Lockstep.Toml.Scan

/-!
# TOML strings

Basic strings with escapes between double quotes and literal strings between
single quotes, on one line or, between triple quotes, on several.
-/

namespace Lockstep.Toml

def hexDigit? (c : Char) : Option Nat :=
  if c.isDigit then some (c.toNat - '0'.toNat)
  else if 'a' ≤ c ∧ c ≤ 'f' then some (c.toNat - 'a'.toNat + 10)
  else if 'A' ≤ c ∧ c ≤ 'F' then some (c.toNat - 'A'.toNat + 10)
  else none

/-- The character with a code point; surrogates are none. -/
def scalar? (n : Nat) : Option Char :=
  if n.isValidChar then some (Char.ofNat n) else none

/-- What a backslash and a letter stand for. -/
def escaped? : Char → Option Char
  | 'b' => some '\x08'
  | 't' => some '\t'
  | 'n' => some '\n'
  | 'f' => some '\x0c'
  | 'r' => some '\r'
  | '"' => some '"'
  | '\\' => some '\\'
  | _ => none

/-- Where a basic string stands. -/
inductive Mode where
  | text
  /-- after a line break that a backslash folds away; more spaces and line
  breaks are dropped -/
  | margin
  /-- after a backslash -/
  | escape
  /-- between a backslash and the line break that it folds away -/
  | fold
  /-- in the digits of a code point -/
  | code (left value : Nat)

/-- The end of a string. A long string ends in three quotes, and up to two more
before them belong to it. -/
def close? (quote : Char) (long : Bool) (cs : List Char) : Option (List Char × List Char) :=
  let n := min (cs.takeWhile (· == quote)).length 5
  if long then
    if 3 ≤ n then some (List.replicate (n - 3) quote, cs.drop n) else none
  else if 1 ≤ n then some ([], cs.drop 1)
  else none

/-- Puts a character before the rest of a string. -/
def push (c : Char) : Option (List Char × List Char) → Option (List Char × List Char) :=
  Option.map fun p => (c :: p.1, p.2)

/-- The body of a basic string after its opening quotes, and what follows its
closing quotes. -/
def basicBody (long : Bool) : Mode → List Char → Option (List Char × List Char)
  | _, [] => none
  | .escape, c :: r =>
    if c = 'u' then basicBody long (.code 4 0) r
    else if c = 'U' then basicBody long (.code 8 0) r
    else
      match escaped? c with
      | some e => push e (basicBody long .text r)
      | none =>
        if long && c == '\n' then basicBody long .margin r
        else if long && isSpace c then basicBody long .fold r
        else none
  | .fold, c :: r =>
    if c = '\n' then basicBody long .margin r
    else if isSpace c then basicBody long .fold r
    else none
  | .code left value, c :: r =>
    match hexDigit? c with
    | none => none
    | some d =>
      if left ≤ 1 then
        match scalar? (value * 16 + d) with
        | some e => push e (basicBody long .text r)
        | none => none
      else basicBody long (.code (left - 1) (value * 16 + d)) r
  | .margin, c :: r =>
    if c = '\n' || isSpace c then basicBody long .margin r
    else
      match close? '"' long (c :: r) with
      | some rest => some rest
      | none =>
        if c = '\\' then basicBody long .escape r
        else if isPrintable c then push c (basicBody long .text r)
        else none
  | .text, c :: r =>
    match close? '"' long (c :: r) with
    | some rest => some rest
    | none =>
      if c = '\\' then basicBody long .escape r
      else if isPrintable c || (long && c == '\n') then push c (basicBody long .text r)
      else none

/-- The body of a literal string after its opening quotes. -/
def literalBody (long : Bool) : List Char → Option (List Char × List Char)
  | [] => none
  | c :: r =>
    match close? '\'' long (c :: r) with
    | some rest => some rest
    | none =>
      if isPrintable c || (long && c == '\n') then push c (literalBody long r) else none

/-- A line break right after the opening quotes of a long string is dropped. -/
def dropBreak : List Char → List Char
  | '\n' :: r => r
  | cs => cs

namespace Scan

/-- A string on one line. -/
def shortText : Scan String
  | '"' :: r => (basicBody false .text r).map fun p => (String.ofList p.1, p.2)
  | '\'' :: r => (literalBody false r).map fun p => (String.ofList p.1, p.2)
  | _ => none

/-- A string of any of the four kinds. -/
def text : Scan String
  | '"' :: '"' :: '"' :: r =>
    (basicBody true .text (dropBreak r)).map fun p => (String.ofList p.1, p.2)
  | '\'' :: '\'' :: '\'' :: r =>
    (literalBody true (dropBreak r)).map fun p => (String.ofList p.1, p.2)
  | cs => shortText cs

end Scan

end Lockstep.Toml
