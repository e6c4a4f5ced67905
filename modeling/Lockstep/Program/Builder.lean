import Lockstep.Program.Basic

/-!
# Building programs

Each function appends one instruction; its position is the length of the
program before.
-/

namespace Lockstep.Program

def empty : Program := ⟨[]⟩

def push (p : Program) (u : Uop) : Program := ⟨p.uops ++ [u]⟩

/-- Grid and lane coordinates and loop counters are 32-bit integers. -/
def counterType : DType := .scalar (.int .int32)

variable (p : Program)

def defineGlobal (d : DType) (name : String) : Program :=
  p.push ⟨.defineGlobal, some d, [], .name name⟩

def defineLocal (d : DType) (name : String) (size : Nat) : Program :=
  p.push ⟨.defineLocal, some d, [], .buffer name size⟩

def defineVar (d : DType) (name : String) : Program :=
  p.push ⟨.defineVar, some d, [], .name name⟩

def special (dim : Nat) (name : String) : Program :=
  p.push ⟨.special, some counterType, [], .axis dim name⟩

def const (d : DType) (l : Literal) : Program :=
  p.push ⟨.const, some d, [], .literal l⟩

def defineAcc (d : DType) (l : Literal) : Program :=
  p.push ⟨.defineAcc, some d, [], .literal l⟩

def loop (start stop : Nat) : Program :=
  p.push ⟨.loop, some counterType, [start, stop], .none⟩

def endLoop (loop : Nat) : Program :=
  p.push ⟨.endLoop, none, [loop], .none⟩

def barrier : Program :=
  p.push ⟨.barrier, none, [], .none⟩

def ifStart (condition : Nat) : Program :=
  p.push ⟨.ifStart, none, [condition], .none⟩

def endIf (start : Nat) : Program :=
  p.push ⟨.endIf, none, [start], .none⟩

def load (d : DType) (src : List Nat) : Program :=
  p.push ⟨.load, some d, src, .none⟩

def store (src : List Nat) : Program :=
  p.push ⟨.store, none, src, .none⟩

def cast (d : DType) (src : List Nat) : Program :=
  p.push ⟨.cast, some d, src, .none⟩

def gep (d : DType) (vector index : Nat) : Program :=
  p.push ⟨.gep, some d, [vector], .index index⟩

def phi (d : DType) (accumulator value : Nat) : Program :=
  p.push ⟨.phi, some d, [accumulator, value], .none⟩

def alu (op : AluOp) (d : DType) (src : List Nat) : Program :=
  p.push ⟨.alu, some d, src, .operation op⟩

def wmma (d : DType) (tag : String) (a b c : Nat) : Program :=
  p.push ⟨.wmma, some d, [a, b, c], .tag tag⟩

end Lockstep.Program
