import Lockstep.Text.Blank

/-!
# Instruction kinds and arithmetic operations

Both are closed sets. Names are read without regard to case or to blanks around
them.
-/

namespace Lockstep

/-- What an instruction is for. -/
inductive Kind where
  /-- binds the next buffer of the caller -/
  | defineGlobal
  /-- allocates a zeroed buffer for the current grid point -/
  | defineLocal
  /-- binds the next launch value -/
  | defineVar
  /-- initialises an accumulator -/
  | defineAcc
  /-- a coordinate of the grid point or of the lane -/
  | special
  | const
  | loop
  | endLoop
  | barrier
  | ifStart
  | endIf
  | load
  | store
  | cast
  /-- picks one element of a vector -/
  | gep
  /-- carries a value into its accumulator -/
  | phi
  | alu
  /-- matrix multiply-accumulate over the lanes of the warp -/
  | wmma
  deriving DecidableEq, Repr

namespace Kind

def all : List Kind :=
  [defineGlobal, defineLocal, defineVar, defineAcc, special, const, loop, endLoop, barrier,
   ifStart, endIf, load, store, cast, gep, phi, alu, wmma]

/-- Void instructions leave no value for others to read. -/
def isVoid : Kind → Bool
  | store | endLoop | barrier | ifStart | endIf => true
  | _ => false

def name : Kind → String
  | defineGlobal => "define_global"
  | defineLocal => "define_local"
  | defineVar => "define_var"
  | defineAcc => "define_acc"
  | special => "special"
  | const => "const"
  | loop => "loop"
  | endLoop => "endloop"
  | barrier => "barrier"
  | ifStart => "if"
  | endIf => "endif"
  | load => "load"
  | store => "store"
  | cast => "cast"
  | gep => "gep"
  | phi => "phi"
  | alu => "alu"
  | wmma => "wmma"

/-- The name in the report of an instruction that left no value. -/
def title : Kind → String
  | defineGlobal => "DefineGlobal"
  | defineLocal => "DefineLocal"
  | defineVar => "DefineVar"
  | defineAcc => "DefineAcc"
  | special => "Special"
  | const => "Const"
  | loop => "Loop"
  | endLoop => "EndLoop"
  | barrier => "Barrier"
  | ifStart => "If"
  | endIf => "EndIf"
  | load => "Load"
  | store => "Store"
  | cast => "Cast"
  | gep => "Gep"
  | phi => "Phi"
  | alu => "Alu"
  | wmma => "Wmma"

instance : ToString Kind := ⟨name⟩

end Kind

/-- The arithmetic and logic operations. -/
inductive AluOp where
  | mulacc | select | log2 | exp2 | sqrt | sin | neg | mul | add | sub | xor | max
  | cmpeq | cmplt | div | mod | noop | cast | recip
  deriving DecidableEq, Repr

namespace AluOp

def all : List AluOp :=
  [mulacc, select, log2, exp2, sqrt, sin, neg, mul, add, sub, xor, max, cmpeq, cmplt, div, mod,
   noop, cast, recip]

def name : AluOp → String
  | mulacc => "mulacc"
  | select => "where"
  | log2 => "log2"
  | exp2 => "exp2"
  | sqrt => "sqrt"
  | sin => "sin"
  | neg => "neg"
  | mul => "mul"
  | add => "add"
  | sub => "sub"
  | xor => "xor"
  | max => "max"
  | cmpeq => "cmpeq"
  | cmplt => "cmplt"
  | div => "div"
  | mod => "mod"
  | noop => "noop"
  | cast => "cast"
  | recip => "recip"

/-- The name in instruction traces. -/
def title : AluOp → String
  | mulacc => "MulAcc"
  | select => "Where"
  | log2 => "Log2"
  | exp2 => "Exp2"
  | sqrt => "Sqrt"
  | sin => "Sin"
  | neg => "Neg"
  | mul => "Mul"
  | add => "Add"
  | sub => "Sub"
  | xor => "Xor"
  | max => "Max"
  | cmpeq => "CmpEq"
  | cmplt => "CmpLt"
  | div => "Div"
  | mod => "Mod"
  | noop => "Noop"
  | cast => "Cast"
  | recip => "Recip"

/-- The result type may differ from the operand types. -/
def mixesTypes : AluOp → Bool
  | cmpeq | cmplt | select => true
  | _ => false

/-- Some operations of the catalogue have no evaluation. -/
def isSupported : AluOp → Bool
  | noop | cast | recip => false
  | _ => true

instance : ToString AluOp := ⟨name⟩

end AluOp

/-- A text that names no kind, or no operation. -/
inductive UnknownName where
  | kind (text : String)
  | operation (text : String)
  deriving DecidableEq

def UnknownName.message : UnknownName → String
  | kind s => s!"unknown uop kind '{s}'"
  | operation s => s!"unknown alu op '{s}'"

def Kind.parse (text : String) : Except UnknownName Kind :=
  let s := lowerText (trimText text)
  match all.find? (·.name == s) with
  | some k => .ok k
  | none => .error (.kind s)

def AluOp.parse (text : String) : Except UnknownName AluOp :=
  let s := lowerText (trimText text)
  match all.find? (·.name == s) with
  | some op => .ok op
  | none => .error (.operation s)

end Lockstep
