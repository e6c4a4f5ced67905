import Lockstep.Run
import Lockstep.Text.Pad
import Lockstep.Text.Quoted

/-!
# Notices

What can be observed while a program runs, besides its results. Notices are read
off the context before a step; the step itself knows nothing of them.
-/

namespace Lockstep

namespace Literal

/-- The literal with its kind, as instruction traces show it. -/
def title : Literal → String
  | bool b => s!"Bool({b})"
  | int i => s!"Int({i})"
  | float x => s!"Float({Layout.marked.text x})"

end Literal

namespace Arg

/-- Named fields between braces. -/
def fields (title : String) (fs : List (String × String)) : String :=
  let items := fs.map fun f => s!"{f.1}: {f.2}"
  title ++ " \x7b " ++ String.intercalate ", " items ++ " \x7d"

def title : Arg → String
  | none => "None"
  | literal l => s!"Literal({l.title})"
  | name n => s!"Name({quoted n})"
  | buffer n size => fields "Local" [("name", quoted n), ("size", toString size)]
  | axis dim n => fields "Special" [("dim", toString dim), ("name", quoted n)]
  | operation op => s!"Alu({op.title})"
  | index i => s!"Index({i})"
  | tag t => s!"Tag({quoted t})"

end Arg

/-- How much a notice matters. -/
inductive Severity where
  | trace | debug | warning
  deriving DecidableEq

def Severity.name : Severity → String
  | trace => "TRACE"
  | debug => "DEBUG"
  | warning => "WARN"

/-- One observation of a run. -/
inductive Notice where
  /-- an instruction is about to be executed -/
  | instruction (pc : Nat) (u : Uop)
  /-- a buffer of the caller is seen in another format than its own -/
  | viewed (n : Nat) (t stored : ScalarType)
  | bound (pc : Nat) (b : BufferRef) (d : DType)
  | allocated (pc : Nat) (b : BufferRef) (size : Nat) (t : ScalarType)
  | loopEntered (pc : Nat) (start : Value)
  | loopLeft (pc target : Nat)
  /-- a conversion failed and the lanes keep their values -/
  | castKept (pc : Nat) (t : ScalarType) (e : ConvertError)
  /-- a result did not fit and is tried in a wider type -/
  | upgraded (op : AluOp) (t : ScalarType)
  deriving DecidableEq

namespace Notice

def severity : Notice → Severity
  | instruction _ _ => .trace
  | castKept _ _ _ => .warning
  | _ => .debug

def message : Notice → String
  | instruction pc u =>
    let type := (u.dtype.map DType.name).getD ""
    String.intercalate " "
      [padLeft 4 (toString pc), padRight 13 u.kind.name, padRight 16 type, u.arg.title]
  | viewed n t stored => s!"global buffer {n} viewed as {t.name} (stored as {stored.name})"
  | bound pc b d => s!"uop {pc}: bound {b} as {d}"
  | allocated pc b size t => s!"uop {pc}: local {b} of {size} x {t.name}"
  | loopEntered pc start => s!"uop {pc}: loop entered at {start}"
  | loopLeft pc target => s!"uop {pc}: loop exited to {target}"
  | castKept pc t e => s!"uop {pc}: cast to {t.name} failed ({e}), keeping original values"
  | upgraded op t => s!"{op} result overflows {t.name}, retrying as {t.upgraded.name}"

def text (n : Notice) : String := s!"{n.severity.name} {n.message}"

/-! ## Notices of a step -/

/-- Whether evaluating one lane takes a wider type. -/
def ofLane (op : AluOp) (t : ScalarType) (vs : List Value) : List Notice :=
  match Alu.evaluate op t vs with
  | .ok (s, n) => if Alu.needsUpgrade s n then [.upgraded op s] else []
  | .error _ => []

/-- Lane after lane, up to the first that fails. -/
def ofLanes (op : AluOp) : List (ScalarType × List Value) → List Notice
  | [] => []
  | (t, vs) :: r =>
    ofLane op t vs ++
      match Alu.execute op t vs with
      | .ok _ => ofLanes op r
      | .error _ => []

def ofAlu (d : DType) (arg : Arg) (ops : List Operand) : List Notice :=
  match arg with
  | .operation op =>
    match Operand.scalars (.alu op) ops with
    | .error _ => []
    | .ok rows =>
      let lanes := leadingCount rows
      if rows.any fun r => r.length != lanes then []
      else if !op.mixesTypes && ops.any fun o => o.type != d then []
      else ofLanes op ((List.range lanes).map fun l => (d.element, laneArguments rows l))
  | _ => []

def ofCast (pc : Nat) (d : DType) (ops : List Operand) : List Notice :=
  if d.isVector then []
  else
    match Operand.scalar .cast ops 0 with
    | .error _ => []
    | .ok lanes =>
      match convertLanes lanes d.element with
      | .ok _ => []
      | .error e => [.castKept pc d.element e]

def ofGlobal (c : Context) (d : DType) : List Notice :=
  match d.format?, c.memory.globals[c.memory.bound]? with
  | some t, some b =>
    (if b.format = t then [] else [.viewed c.memory.bound t b.format]) ++
      (if b.fits t then [.bound c.pc (.global c.memory.bound) d] else [])
  | _, _ => []

def ofLocal (c : Context) (d : DType) (arg : Arg) : List Notice :=
  match d.format?, arg with
  | some t, .buffer _ size => [.allocated c.pc (.scratch c.memory.scratch.length) size t]
  | _, _ => []

/-- The additions to the counter, then the end of the loop if it is reached. -/
def ofCounter (c : Context) (counter : Lanes) (ops : List Operand) : List Notice :=
  let ones := counter.filterMap fun v =>
    match Value.ofInt 1 v.type with
    | .ok one => some (v.type, [v, one])
    | .error _ => none
  ofLanes .add ones ++
    match Loop.advance c.pc counter ops, c.loopEnds.get? c.pc with
    | .ok (next, stop), some e => if Loop.reached next stop then [.loopLeft c.pc (e + 1)] else []
    | _, _ => []

def ofLoop (c : Context) (d : DType) (ops : List Operand) : List Notice :=
  match c.values.get? c.pc with
  | none =>
    match (Operand.firstLane c.pc ops 0).toOption.bind fun v => (v.convert d.element).toOption with
    | some start => [.loopEntered c.pc start]
    | none => []
  | some (.scalar counter) => ofCounter c counter ops
  | some _ => []

/-- The notices of an instruction, its own trace aside. -/
def ofUop (p : Program) (u : Uop) (c : Context) : List Notice :=
  match gather p u c, u.dtype with
  | .ok ops, some d =>
    match u.kind with
    | .defineGlobal => ofGlobal c d
    | .defineLocal => ofLocal c d u.arg
    | .loop => ofLoop c d ops
    | .cast => ofCast c.pc d ops
    | .alu => ofAlu d u.arg ops
    | _ => []
  | _, _ => []

/-- The notices of the step that starts in a context. -/
def ofStep (p : Program) (c : Context) : List Notice :=
  match p.get? c.pc with
  | none => []
  | some u => .instruction c.pc u :: ofUop p u c

end Notice

end Lockstep
