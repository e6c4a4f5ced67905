import Lockstep.Buffer.Basic
import Lockstep.Lanes
import Lockstep.Program.Basic
import Lockstep.Wide

/-!
# Faults

Everything that can stop a program, as causes. A fault is final: the instruction
that raised it is neither retried nor weakened. All but one are reported to whoever runs
the program; an address that cannot be computed is a crash, which ends that one too.
-/

namespace Lockstep

/-- Items between brackets, as `[a, b, c]`. -/
def bracketed (items : List String) : String :=
  "[" ++ String.intercalate ", " items ++ "]"

/-- The two ways to reach an element. -/
inductive Access where
  | load | store
  deriving DecidableEq

def Access.name : Access → String
  | load => "load"
  | store => "store"

/-- The instruction whose operands are wrong. -/
inductive Operation where
  | alu (op : AluOp)
  | memory (access : Access)
  | cast
  | gep
  | wmma
  deriving DecidableEq

def Operation.name : Operation → String
  | alu op => op.name
  | memory a => a.name
  | cast => "cast"
  | gep => "gep"
  | wmma => "wmma"

/-- Why the operand types of an operation do not go together. -/
inductive TypeMismatch where
  /-- no single type takes them all -/
  | irreconcilable (types : List ScalarType)
  /-- the declared type is not that of the operands -/
  | declared (declared : DType) (operands : List DType)
  deriving DecidableEq

def TypeMismatch.message : TypeMismatch → String
  | irreconcilable ts =>
    s!"all elements must be of the same basic type, got {bracketed (ts.map (·.name))}"
  | declared d ds => s!"dtype mismatch: declared {d}, operands {bracketed (ds.map (·.name))}"

/-- One of the three matrices of a tensor-core operation. -/
inductive Matrix where
  | a | b | c
  deriving DecidableEq

def Matrix.name : Matrix → String
  | a => "A"
  | b => "B"
  | c => "C"

/-- Why an operation has no result for its operands. -/
inductive OperandFault where
  | noCondition
  | noResult (operands : List Value) (t : ScalarType)
  | laneCounts (counts : List Nat)
  | notScalar (operand : Nat)
  | notVector (operand : Nat)
  | notBuffer
  | noElement (operand element : Nat)
  | noSuchElement (element : Nat)
  | unbound (buffer : BufferRef)
  | offset (v : Value)
  | noCoordinates
  | outsideImage (x y : Int) (height width : Nat)
  | channelCount (n : Nat)
  | imageLoad (declared : DType)
  | imageStore (value : DType)
  | matrixElements (m : Matrix) (expected got : Nat)
  | matrixTotal (m : Matrix) (total : Nat)
  | laneGroups (group got : Nat)
  | notDuplicated (element lane : Nat) (low : Value) (other : Nat) (high : Value)
  deriving DecidableEq

def OperandFault.message : OperandFault → String
  | noCondition => "where needs a condition operand"
  | noResult vs t => s!"{bracketed (vs.map (·.text))} as {t.name}"
  | laneCounts ns => s!"lane counts {bracketed (ns.map toString)} do not match"
  | notScalar i => s!"operand {i} is not a scalar"
  | notVector i => s!"operand {i} is not a vector"
  | notBuffer => "first operand is not a buffer"
  | noElement i j => s!"operand {i} has no element {j}"
  | noSuchElement j => s!"no element {j} in operand"
  | unbound b => s!"unbound buffer {b}"
  | offset v => s!"offset {v} is not an integer"
  | noCoordinates => "image access needs (x, y) coordinates"
  | outsideImage x y h w => s!"image coordinate ({x}, {y}) outside {h}x{w}"
  | channelCount n => s!"image store needs 4 channels, got {n}"
  | imageLoad d => s!"image load produces 4 channels, declared {d}"
  | imageStore d => s!"image store needs a 4-channel value, got {d}"
  | matrixElements m e g => s!"{m.name} must have {e} elements per thread, got {g}"
  | matrixTotal m n => s!"{m.name} must have {n} total elements"
  | laneGroups g n => s!"must have multiples of {g} warp threads, got {n}"
  | notDuplicated e l lo o hi =>
    s!"warp elements not duplicated across lanes: element {e} lane {l} is {lo}, lane {o} is {hi}"

/-- A conversion that an instruction needs and that fails. -/
inductive ConversionFault where
  | value (e : ConvertError)
  | result (op : AluOp) (e : ConvertError)
  | stored (v : Value) (t : ScalarType) (e : ConvertError)
  | tile (e : ConvertError)
  | view (e : CopyError)
  deriving DecidableEq

def ConversionFault.message : ConversionFault → String
  | value e => e.message
  | result op e => s!"result of {op} cannot be converted: {e}"
  | stored v t e => s!"store of {v} into {t.name} buffer: {e}"
  | tile e => s!"wmma result: {e}"
  | view e => e.message

/-- Why a program is not well formed at an instruction. -/
inductive Malformation where
  | lateOperand (operand : Nat)
  | missingType (k : Kind)
  | operandCount (k : Kind) (n : Nat)
  | endLoopTarget (target : Nat)
  | endLoopOperand
  | operandValue (operand : Nat)
  | operandType (operand : Nat)
  | missingOperand (i : Nat)
  | bufferFormat (d : DType)
  | bufferArgument
  | bufferSize
  | launchValue
  | axis
  | literal
  | accumulator
  | elementIndex
  | tag
  | operation
  | loopBound (i : Nat)
  | loopCounter
  | loopEnd
  | gatedStore
  | storeOperands (n : Nat)
  | castElements (n : Nat) (d : DType)
  | castOperands (n : Nat) (d : DType)
  deriving DecidableEq

def Malformation.message : Malformation → String
  | lateOperand s => s!"operand {s} does not precede its user"
  | missingType k => s!"{k} is missing a dtype"
  | operandCount k n => s!"{k} has {n} value operands"
  | endLoopTarget t => s!"endloop targets uop {t} which is not a loop"
  | endLoopOperand => "endloop has no loop operand"
  | operandValue s => s!"operand {s} has no value"
  | operandType s => s!"operand {s} has no dtype"
  | missingOperand i => s!"missing operand {i}"
  | bufferFormat d => s!"{d} has no buffer format"
  | bufferArgument => "no buffer argument left to bind"
  | bufferSize => "local buffer needs a size"
  | launchValue => "no launch value left to bind"
  | axis => "special needs a dimension below 3"
  | literal => "constant needs a literal"
  | accumulator => "phi needs an accumulator"
  | elementIndex => "gep needs an element index"
  | tag => "wmma needs a variant tag"
  | operation => "alu needs an operation"
  | loopBound i => s!"loop bound {i} is not a scalar"
  | loopCounter => "loop counter is not scalar"
  | loopEnd => "loop has no recorded end"
  | gatedStore => "gated stores are not supported"
  | storeOperands n => s!"store has {n} value operands"
  | castElements n d => s!"cast of a {n}-element vector to {d}"
  | castOperands n d => s!"cast packs {n} operands into {d}"

/-- Why a program stops before its end. -/
inductive Fault where
  | typeMismatch (op : AluOp) (cause : TypeMismatch)
  | unsupported (op : AluOp)
  | invalidOperands (op : Operation) (cause : OperandFault)
  | outOfBounds (access : Access) (index : Int) (length : Nat)
  /-- the result fits not even the widest type; without a number it left the
  range in which results are computed -/
  | overflow (op : AluOp) (t : ScalarType) (result : Option Number)
  | conversion (cause : ConversionFault)
  | unknownTensorCore (tag : String)
  | noValue (pc : Nat) (k : Kind)
  | malformed (pc : Nat) (cause : Malformation)
  /-- a crash: the address of a texel is no wide integer -/
  | addressOverflow (cause : Wide.Overflow)
  deriving DecidableEq

def Fault.message : Fault → String
  | typeMismatch op c => s!"type mismatch on {op}: {c.message}"
  | unsupported op => s!"unsupported operation: {op}"
  | invalidOperands op c => s!"invalid operands for {op.name}: {c.message}"
  | outOfBounds a i n => s!"{a.name} out of bounds, size is {n} and access is {i}"
  | overflow op t (some n) => s!"result {n} of {op} overflows {t.name} (upcast failed)"
  | overflow op t none =>
    s!"result out of evaluation range of {op} overflows {t.name} (upcast failed)"
  | conversion c => s!"type conversion error: {c.message}"
  | unknownTensorCore tag => s!"unimplemented tensor core {tag}"
  | noValue pc k => s!"internal consistency fault at uop {pc} ({k.title}): no value produced"
  | malformed pc c => s!"malformed program at uop {pc}: {c.message}"
  | addressOverflow c => c.message

end Lockstep
