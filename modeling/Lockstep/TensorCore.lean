import Lockstep.Fault

/-!
# Tensor cores

A warp-wide matrix multiply-accumulate. The lanes of a group hold three square
matrices between them; a layout says which element of which lane holds which
entry. In every group

`D[row, col] = C[row, col] + Σ k, A(k, col) * B(row, k)`

with the terms added in ascending order of `k`.
-/

namespace Lockstep

/-- A layout of matrices over lanes. -/
inductive TensorCore where
  | metal
  | rdna
  deriving DecidableEq, Repr

namespace TensorCore

/-- Lanes that hold one set of matrices. -/
def groupSize : Nat := 32

/-- Rows and columns of the matrices, and the number of terms of each sum. -/
def depth : TensorCore → Nat
  | metal => 8
  | rdna => 16

/-- Elements per lane of the factors. -/
def factorElements : TensorCore → Nat
  | metal => 2
  | rdna => 16

/-- Elements per lane of the sum. -/
def sumElements : TensorCore → Nat
  | metal => 2
  | rdna => 8

/-- Row and column of an element of the sum. -/
def position (core : TensorCore) (lane element : Nat) : Nat × Nat :=
  match core with
  | metal => (element + lane % 2 * 2 + lane / 8 % 2 * 4, lane / 2 % 4 + lane / 16 * 4)
  | rdna => (lane % 16, lane / 16 + element * 2)

/-- The value of one element of one lane. -/
def entry (x : List Lanes) (element lane : Nat) : Value :=
  (x.getD element []).getD lane (.bool false)

/-- Two entries per lane, in rows. -/
def metalFactor (x : List Lanes) (i j base : Nat) : Value :=
  entry x (i % 2) (base + i / 2 % 2 + j % 4 * 2 + i / 4 * 8 + j / 4 * 16)

/-- Lanes 16 to 31 of a group repeat lanes 0 to 15. -/
def rdnaFactor (x : List Lanes) (i j base : Nat) : Except Fault Value :=
  let low := entry x i (base + j)
  let high := entry x i (base + j + 16)
  if low.numericEq high then .ok low
  else .error (.invalidOperands .wmma (.notDuplicated i (base + j) low (base + j + 16) high))

/-- Entry `(i, j)` of the first factor of the group that starts at a lane. -/
def first (core : TensorCore) (x : List Lanes) (i j base : Nat) : Except Fault Value :=
  match core with
  | metal => .ok (metalFactor x i j base)
  | rdna => rdnaFactor x i j base

/-- Entry `(i, j)` of the second factor. -/
def second (core : TensorCore) (x : List Lanes) (i j base : Nat) : Except Fault Value :=
  match core with
  | metal => .ok (metalFactor x i j base)
  | rdna => rdnaFactor x j i base

/-- The sum with the `k`-th term added. -/
def addTerm (core : TensorCore) (a b : List Lanes) (row col base : Nat) (sum : Binary64)
    (k : Nat) : Except Fault Binary64 := do
  let x ← core.first a k col base
  let y ← core.second b row k base
  return sum.add (x.toFloat.mul y.toFloat)

/-- The result held by one element of one lane of a group. -/
def cell (core : TensorCore) (a b c : List Lanes) (out : ScalarType) (base lane element : Nat) :
    Except Fault Value := do
  let (row, col) := core.position lane element
  let sum ← (List.range core.depth).foldlM (core.addTerm a b row col base)
    (entry c element (base + lane)).toFloat
  (Value.ofFloat sum out).mapError fun e => .conversion (.tile e)

/-- The results of all elements, lane after lane. -/
def cells (core : TensorCore) (a b c : List Lanes) (out : ScalarType) (lanes : Nat) :
    Except Fault (List (List Value)) :=
  (List.range lanes).mapM fun l =>
    (List.range core.sumElements).mapM fun e =>
      core.cell a b c out (l / groupSize * groupSize) (l % groupSize) e

def checkMatrix (m : Matrix) (x : List Lanes) (elements lanes : Nat) : Except Fault Unit :=
  if x.length ≠ elements then
    .error (.invalidOperands .wmma (.matrixElements m elements x.length))
  else if x.any fun l => l.length != lanes then
    .error (.invalidOperands .wmma (.matrixTotal m (elements * lanes)))
  else .ok ()

/-- Multiplies and accumulates, with results of a given type. -/
def execute (core : TensorCore) (a b c : List Lanes) (out : ScalarType) :
    Except Fault (List Lanes) := do
  let lanes := match c with
    | [] => 0
    | l :: _ => l.length
  checkMatrix .a a core.factorElements lanes
  checkMatrix .b b core.factorElements lanes
  checkMatrix .c c core.sumElements lanes
  if lanes = 0 ∨ lanes % groupSize ≠ 0 then
    throw (.invalidOperands .wmma (.laneGroups groupSize lanes))
  let rows ← core.cells a b c out lanes
  return (List.range core.sumElements).map fun e => rows.map fun r => r.getD e (.bool false)

def ofTag (tag : String) : Except Fault TensorCore :=
  if "__metal_wmma".toList.isPrefixOf tag.toList then .ok metal
  else if tag == "__builtin_amdgcn_wmma_f32_16x16x16_f16_w32" || tag == "__hip_wmma_f16_f16" then
    .ok rdna
  else .error (.unknownTensorCore tag)

end TensorCore

end Lockstep
