import Lockstep.Memory.Basic

/-!
# Access by a whole warp

Loads and stores of one element per lane, linear or in images of four-channel
texels. A store is a list of single writes done in order; if one fails, those
before it stay done.
-/

namespace Lockstep

/-- A single write. Its address may turn out to be none. -/
structure Write where
  view : View
  address : Except Fault Int
  value : Value

namespace Memory

def perform (m : Memory) : List Write → Memory × Except Fault Unit
  | [] => (m, .ok ())
  | w :: r =>
    match w.address with
    | .error e => (m, .error e)
    | .ok i =>
      match m.write w.view i w.value with
      | .error e => (m, .error e)
      | .ok m => m.perform r

/-! ## Linear access -/

/-- The address `delta` elements past an offset. -/
def address (a : Access) (base : Value) (delta : Int) : Except Fault Int :=
  (offset base a).map (· + delta)

def loadLane (m : Memory) (v : View) (base : Value) (delta : Int) : Except Fault Value := do
  m.read v (← address .load base delta)

/-- One element per lane at `delta` past the lane's offset. -/
def load (m : Memory) (views : List View) (offsets : Lanes) (delta : Int) : Except Fault Lanes :=
  (views.zip offsets).mapM fun (v, o) => m.loadLane v o delta

/-- A lane whose gate is false takes its default and touches no memory. -/
def loadGated (m : Memory) (views : List View) (offsets gate default : Lanes) (delta : Int) :
    Except Fault Lanes :=
  ((views.zip offsets).zip (gate.zip default)).mapM fun ((v, o), (g, d)) =>
    if g.truthy then m.loadLane v o delta else .ok d

/-- One write per lane at `delta` past the lane's offset. -/
def writes (views : List View) (offsets values : Lanes) (delta : Int) : List Write :=
  (views.zip (offsets.zip values)).map fun (v, o, x) => ⟨v, address .store o delta, x⟩

/-- The writes of a vector, element after element: element `j` goes `j` past the
offset. -/
def vectorWrites (views : List View) (offsets : Lanes) (elements : List Lanes) : List Write :=
  elements.zipIdx.flatMap fun (values, j) => writes views offsets values j

/-! ## Images -/

/-- Channels of a texel. -/
def channels : Nat := 4

/-- The number of the element that holds a channel of a texel, computed in wide integers. -/
def texelNumber (width : Nat) (x y : Int) (channel : Nat) : Except Wide.Overflow Int := do
  let column ← Wide.multiply x channels
  let line ← Wide.multiply y width
  let row ← Wide.multiply line channels
  let start ← Wide.add column row
  Wide.add start channel

/-- Where a channel of a texel is; there is none outside the image. -/
def texel? (height width : Nat) (x y : Int) (channel : Nat) : Except Fault (Option Int) :=
  if 0 ≤ x ∧ x < width ∧ 0 ≤ y ∧ y < height then
    ((texelNumber width x y channel).map some).mapError .addressOverflow
  else .ok none

/-- A texel outside the image reads as zero. -/
def loadTexel (m : Memory) (v : View) (height width : Nat) (x y : Value) (channel : Nat) :
    Except Fault Value := do
  let x ← offset x .load
  let y ← offset y .load
  match ← texel? height width x y channel with
  | some i => m.read v i
  | none => return .zero v.format

/-- All channels, each with one value per lane. -/
def loadImage (m : Memory) (views : List View) (height width : Nat) (xs ys : Lanes) :
    Except Fault (List Lanes) :=
  (List.range channels).mapM fun c =>
    (views.zip (xs.zip ys)).mapM fun (v, x, y) => m.loadTexel v height width x y c

/-- A texel outside the image cannot be written. -/
def texelAddress (height width : Nat) (x y : Value) (channel : Nat) : Except Fault Int := do
  let x ← offset x .store
  let y ← offset y .store
  match ← texel? height width x y channel with
  | some i => return i
  | none => throw (.invalidOperands (.memory .store) (.outsideImage x y height width))

def texelWrites (views : List View) (height width : Nat) (xs ys : Lanes)
    (elements : List Lanes) : List Write :=
  elements.zipIdx.flatMap fun (values, c) =>
    (views.zip ((xs.zip ys).zip values)).map fun (v, (x, y), a) =>
      ⟨v, texelAddress height width x y c, a⟩

/-- The writes of exactly four channels, channel after channel. -/
def imageWrites (views : List View) (height width : Nat) (xs ys : Lanes)
    (elements : List Lanes) : Except Fault (List Write) :=
  if elements.length ≠ channels then
    .error (.invalidOperands (.memory .store) (.channelCount elements.length))
  else .ok (texelWrites views height width xs ys elements)

end Memory

end Lockstep
