import Lockstep.Host

/-!
# Snapshots

A machine whose files and environment do not change: a tree of files below the
working directory. Directories are those that hold a file. Of what lies outside
the tree, only the root with the usual directories in it and the directories
above the working directory are known, and none of them holds a file.
-/

namespace Lockstep

/-- The parts of a text between slashes. -/
def splitSlashes : List Char → List (List Char)
  | [] => [[]]
  | c :: r =>
    if c = '/' then [] :: splitSlashes r
    else
      match splitSlashes r with
      | [] => [[c]]
      | part :: parts => (c :: part) :: parts

def pathParts (path : String) : List String :=
  (splitSlashes path.toList).map String.ofList

/-- A name has at most so many bytes. -/
def nameLimit : Nat := 255

/-- A path has at most so many bytes. -/
def pathLimit : Nat := 4095

/-- The directories that are found in the root of a Linux system. -/
def systemDirectories : List String :=
  ["bin", "boot", "dev", "etc", "home", "lib", "media", "mnt", "opt", "proc", "root", "run",
   "sbin", "srv", "sys", "tmp", "usr", "var"]

/-- Where a path leads. -/
inductive Place where
  | root
  /-- another directory outside the tree -/
  | outside
  /-- in the tree, with the parts of the path from the working directory -/
  | inside (parts : List String)
  deriving DecidableEq

/-- The directory that a place lies in; the root lies in itself. -/
def Place.parent : Place → Place
  | root => root
  | outside | inside [] => outside
  | inside parts => inside parts.dropLast

/-- What a host can be asked, written down. -/
structure Snapshot where
  /-- the parts of each file's path with its text -/
  files : List (List String × String)
  environment : List (String × String)
  userDirectory : Option String

namespace Snapshot

def ofFiles (files : List (String × String)) (environment : List (String × String))
    (userDirectory : Option String) : Snapshot :=
  { files := files.map fun f => ((pathParts f.1).filter fun p => p ≠ "" ∧ p ≠ ".", f.2)
    environment := environment
    userDirectory := userDirectory }

variable (s : Snapshot)

def text? (place : List String) : Option String :=
  (s.files.find? fun f => f.1 == place).map (·.2)

/-- The names below a place, each once. -/
def namesIn (place : List String) : List String :=
  (s.files.filterMap fun f =>
    if place.isPrefixOf f.1 then (f.1.drop place.length).head? else none).eraseDups

/-- A file or a directory of the tree. -/
def known (parts : List String) : Except FileError Place :=
  if (s.text? parts).isSome || !(s.namesIn parts).isEmpty then .ok (.inside parts)
  else .error .absent

/-- The text of a place, if it is a file. -/
def textAt? : Place → Option String
  | .inside parts => s.text? parts
  | _ => none

def isFile (place : Place) : Bool := (s.textAt? place).isSome

/-- The names in a directory. -/
def namesAt : Place → List String
  | .root => systemDirectories
  | .outside => []
  | .inside parts => s.namesIn parts

/-- The place of a name in a place. -/
def step (place : Place) (part : String) : Except FileError Place :=
  if s.isFile place then .error .notDirectory
  else if part = "" ∨ part = "." then .ok place
  else if part = ".." then .ok place.parent
  else if nameLimit < part.utf8ByteSize then .error .nameTooLong
  else
    match place with
    | .root => if systemDirectories.contains part then .ok .outside else .error .absent
    | .outside => .error .absent
    | .inside parts => s.known (parts ++ [part])

/-- The place of a path. The empty path leads nowhere, and one from the root
starts with a slash. -/
def locate (path : String) : Except FileError Place :=
  if path.toList.contains '\x00' then .error .hasNul
  else if path = "" then .error .absent
  else if pathLimit < path.utf8ByteSize then .error .nameTooLong
  else (pathParts path).foldlM s.step (if path.toList.head? = some '/' then .root else .inside [])

def readText (path : String) : Except FileError String := do
  match s.textAt? (← s.locate path) with
  | some t => return t
  | none => throw .isDirectory

def list (path : String) : Except FileError (List String) := do
  let place ← s.locate path
  if s.isFile place then throw .notDirectory
  return s.namesAt place

/-- The snapshot as a machine; nothing takes time on it. -/
def host : Host Id where
  readText := s.readText
  list := s.list
  lookup name := (s.environment.find? fun v => v.1 == name).map (·.2)
  userDirectory? := s.userDirectory
  measure f := (f (), 0)

end Snapshot

end Lockstep
