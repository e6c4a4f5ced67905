import Lockstep.Instruction.Compute
import Lockstep.Proofs.Memory.Replay

/-!
# What a load reads

The views through which a load reads an element: those of the lanes that it comes
to and that ask for one, up to the first that fails. On other buffers of the same
shapes a load does the same if these are the same.
-/

namespace Lockstep

/-- The views lead to the same buffers when the buffers of the caller are
replaced. -/
def Memory.AgreesOn (m : Memory) (gs : List Buffer) (vs : List View) : Prop :=
  ∀ v ∈ vs, (m.on gs).buffer? v.buffer = m.buffer? v.buffer

theorem Memory.AgreesOn.append {m : Memory} {gs : List Buffer} {vs vs' : List View} :
    m.AgreesOn gs (vs ++ vs') ↔ m.AgreesOn gs vs ∧ m.AgreesOn gs vs' :=
  List.forall_mem_append

namespace Reads

variable {α β : Type}

/-- What is read once something else has succeeded. -/
def after (x : Except Fault α) (r : α → List View) : List View :=
  match x with
  | .ok a => r a
  | .error _ => []

/-- What a traversal reads, each part of which reads so much. -/
def each (f : α → Except Fault β) (r : α → List View) : List α → List View
  | [] => []
  | a :: l => r a ++ after (f a) fun _ => each f r l

/-! ## Loads -/

def read (m : Memory) (v : View) (i : Int) : List View :=
  after (m.read v i) fun _ => [v]

def lane (m : Memory) (v : View) (base : Value) (delta : Int) : List View :=
  after (Memory.address .load base delta) (read m v)

def linear (m : Memory) (views : List View) (offsets : Lanes) (delta : Int) : List View :=
  each (fun (v, o) => m.loadLane v o delta) (fun (v, o) => lane m v o delta) (views.zip offsets)

/-- A lane whose gate is false reads nothing. -/
def gated (m : Memory) (views : List View) (offsets gate default : Lanes) (delta : Int) :
    List View :=
  each (fun ((v, o), (g, d)) => if g.truthy then m.loadLane v o delta else .ok d)
    (fun ((v, o), (g, _)) => if g.truthy then lane m v o delta else [])
    ((views.zip offsets).zip (gate.zip default))

def element (m : Memory) (views : List View) (ops : List Operand) (j : Nat) : List View :=
  after (Operand.element (.memory .load) ops 1 j) fun offsets =>
    if ops.length = 4 then
      after (Operand.element (.memory .load) ops 2 j) fun gate =>
        after (Operand.element (.memory .load) ops 3 j) fun default =>
          gated m views offsets gate default j
    else linear m views offsets j

def elements (m : Memory) (views : List View) (ops : List Operand) (j : Nat) : Nat → List View
  | 0 => []
  | count + 1 =>
    element m views ops j ++ after (loadElement m views ops j) fun _ =>
      elements m views ops (j + 1) count

/-- A texel outside the image is not read. -/
def texel (m : Memory) (v : View) (height width : Nat) (x y : Value) (channel : Nat) : List View :=
  after (Memory.offset x .load) fun x => after (Memory.offset y .load) fun y =>
    after (Memory.texel? height width x y channel) fun
      | some i => read m v i
      | none => []

def channel (m : Memory) (views : List View) (height width : Nat) (xs ys : Lanes) (c : Nat) :
    List View :=
  each (fun (v, x, y) => m.loadTexel v height width x y c)
    (fun (v, x, y) => texel m v height width x y c) (views.zip (xs.zip ys))

def image (m : Memory) (views : List View) (height width : Nat) (xs ys : Lanes) : List View :=
  each (fun c => (views.zip (xs.zip ys)).mapM fun (v, x, y) => m.loadTexel v height width x y c)
    (channel m views height width xs ys) (List.range Memory.channels)

def loadTexels (m : Memory) (d : DType) (views : List View) (height width : Nat)
    (ops : List Operand) : List View :=
  if d.count ≠ Memory.channels then []
  else after (Operand.coordinates .load ops) fun (xs, ys) => image m views height width xs ys

def loadLinear (m : Memory) (d : DType) (views : List View) (ops : List Operand) : List View :=
  if d.isVector then elements m views ops 0 d.count else element m views ops 0

/-- What a load reads. -/
def load (m : Memory) (d : DType) (ops : List Operand) : List View :=
  match ops with
  | [] => []
  | o :: _ =>
    after (Operand.views .load o.values) fun views =>
      match o.type.shape? with
      | some (h, w) => loadTexels m d views h w ops
      | none => loadLinear m d views ops

/-! ## Loads on other buffers -/

section

variable {m : Memory} {gs : List Buffer}

theorem bind_on {x : Except Fault α} {f g : α → Except Fault β} {r : α → List View}
    (h : m.AgreesOn gs (after x r)) (hfg : ∀ a, m.AgreesOn gs (r a) → g a = f a) :
    (x >>= g) = (x >>= f) := by
  cases x with
  | error e => rfl
  | ok a => exact hfg a h

/-- A traversal does the same if its parts do, up to the first that fails. -/
theorem mapM_on {f g : α → Except Fault β} {r : α → List View} {l : List α}
    (h : m.AgreesOn gs (each f r l)) (hfg : ∀ a, m.AgreesOn gs (r a) → g a = f a) :
    l.mapM g = l.mapM f := by
  induction l with
  | nil => rfl
  | cons a l ih =>
    obtain ⟨ha, hl⟩ := Memory.AgreesOn.append.mp h
    rw [List.mapM_cons, List.mapM_cons, hfg a ha]
    exact bind_on hl fun _ hl => by rw [ih hl]

variable (hs : shapes m.globals = shapes gs)
include hs

theorem read_on {v : View} {i : Int} (h : m.AgreesOn gs (read m v i)) :
    (m.on gs).read v i = m.read v i := by
  cases hr : m.read v i with
  | error f => exact Memory.read_on_of_error hs hr
  | ok x =>
    rw [← hr]
    refine Memory.read_on_of_eq (h v ?_)
    rw [read, hr]
    exact List.mem_singleton_self v

theorem lane_on {v : View} {base : Value} {delta : Int} (h : m.AgreesOn gs (lane m v base delta)) :
    (m.on gs).loadLane v base delta = m.loadLane v base delta :=
  bind_on h fun _ h => read_on hs h

theorem linear_on {views : List View} {offsets : Lanes} {delta : Int}
    (h : m.AgreesOn gs (linear m views offsets delta)) :
    (m.on gs).load views offsets delta = m.load views offsets delta :=
  mapM_on h fun _ h => lane_on hs h

theorem gated_on {views : List View} {offsets gate default : Lanes} {delta : Int}
    (h : m.AgreesOn gs (gated m views offsets gate default delta)) :
    (m.on gs).loadGated views offsets gate default delta =
      m.loadGated views offsets gate default delta := by
  refine mapM_on h fun ⟨⟨v, o⟩, ⟨g, d⟩⟩ h => ?_
  dsimp only at h ⊢
  split at h
  · rename_i hg
    rw [if_pos hg, if_pos hg, lane_on hs h]
  · rename_i hg
    rw [if_neg hg, if_neg hg]

theorem element_on {views : List View} {ops : List Operand} {j : Nat}
    (h : m.AgreesOn gs (element m views ops j)) :
    loadElement (m.on gs) views ops j = loadElement m views ops j := by
  refine bind_on h fun offsets h => ?_
  split at h
  · rename_i hlen
    rw [if_pos hlen, if_pos hlen]
    exact bind_on h fun gate h => bind_on h fun default h => gated_on hs h
  · rename_i hlen
    rw [if_neg hlen, if_neg hlen]
    exact linear_on hs h

theorem elements_on {views : List View} {ops : List Operand} {j count : Nat}
    (h : m.AgreesOn gs (elements m views ops j count)) :
    loadElements (m.on gs) views ops j count = loadElements m views ops j count := by
  induction count generalizing j with
  | zero => rfl
  | succ count ih =>
    obtain ⟨hj, hrest⟩ := Memory.AgreesOn.append.mp h
    rw [loadElements, loadElements, element_on hs hj]
    exact bind_on hrest fun _ hrest => by rw [ih hrest]

theorem texel_on {v : View} {height width channel : Nat} {x y : Value}
    (h : m.AgreesOn gs (texel m v height width x y channel)) :
    (m.on gs).loadTexel v height width x y channel = m.loadTexel v height width x y channel := by
  refine bind_on h fun x h => bind_on h fun y h => bind_on h fun place h => ?_
  cases place with
  | none => rfl
  | some i => exact read_on hs h

theorem channel_on {views : List View} {height width c : Nat} {xs ys : Lanes}
    (h : m.AgreesOn gs (channel m views height width xs ys c)) :
    (views.zip (xs.zip ys)).mapM (fun (v, x, y) => (m.on gs).loadTexel v height width x y c) =
      (views.zip (xs.zip ys)).mapM fun (v, x, y) => m.loadTexel v height width x y c :=
  mapM_on h fun _ h => texel_on hs h

theorem image_on {views : List View} {height width : Nat} {xs ys : Lanes}
    (h : m.AgreesOn gs (image m views height width xs ys)) :
    (m.on gs).loadImage views height width xs ys = m.loadImage views height width xs ys :=
  mapM_on h fun _ h => channel_on hs h

theorem loadTexels_on {d : DType} {views : List View} {height width : Nat} {ops : List Operand}
    (h : m.AgreesOn gs (loadTexels m d views height width ops)) :
    Lockstep.loadTexels (m.on gs) d views height width ops =
      Lockstep.loadTexels m d views height width ops := by
  unfold loadTexels at h
  unfold Lockstep.loadTexels
  split at h
  · rename_i hcount
    rw [if_pos hcount, if_pos hcount]
  · rename_i hcount
    rw [if_neg hcount, if_neg hcount]
    exact bind_on h fun xy h => congrArg (Except.map LaneValues.vector) (image_on hs h)

theorem loadLinear_on {d : DType} {views : List View} {ops : List Operand}
    (h : m.AgreesOn gs (loadLinear m d views ops)) :
    Lockstep.loadLinear (m.on gs) d views ops = Lockstep.loadLinear m d views ops := by
  unfold loadLinear at h
  unfold Lockstep.loadLinear
  split at h
  · rename_i hvec
    rw [if_pos hvec, if_pos hvec, elements_on hs h]
  · rename_i hvec
    rw [if_neg hvec, if_neg hvec, element_on hs h]

/-- On other buffers of the same shapes a load gives the same if those that it
reads are the same. -/
theorem load_on {d : DType} {ops : List Operand} (h : m.AgreesOn gs (load m d ops)) :
    Lockstep.load (m.on gs) d ops = Lockstep.load m d ops := by
  cases ops with
  | nil => rfl
  | cons o r =>
    refine bind_on h fun views h => ?_
    cases hshape : o.type.shape? with
    | some shape =>
      rw [hshape] at h
      exact loadTexels_on hs h
    | none =>
      rw [hshape] at h
      exact loadLinear_on hs h

end

end Reads

end Lockstep
