import Lockstep.Memory.Access
import Lockstep.Proofs.Memory.Patch
import Lockstep.Proofs.Outcome

/-!
# The same accesses on other buffers

A memory is put on other buffers of the caller that have the same shapes. A write
succeeds or fails there as before and leaves the same patch; a read that fails
fails as before.
-/

namespace Lockstep

/-- The patches that bytes put in place through a view come to: none if the
buffer is not one of the caller's. -/
def View.patches (v : View) (i : Int) (bytes : List UInt8) : List Patch :=
  match v.buffer with
  | .global n => [⟨n, i.toNat * v.format.size, bytes⟩]
  | .scratch _ => []

namespace Memory

/-- The memory with other buffers of the caller. -/
def on (m : Memory) (gs : List Buffer) : Memory := { m with globals := gs }

/-- The bytes that a write puts in place. -/
def written (m : Memory) (v : View) (i : Int) (x : Value) : Except Fault (List UInt8) := do
  let b ← m.resolve v .store
  let _ ← slot b v.format i .store
  (encodeElement v.format x).mapError fun e => .conversion (.stored x v.format e)

/-- Bytes put in place through a view. -/
def put (m : Memory) (v : View) (i : Int) (bytes : List UInt8) : Memory :=
  match v.buffer with
  | .global n => m.on (Patch.apply ⟨n, i.toNat * v.format.size, bytes⟩ m.globals)
  | .scratch n =>
    { m with scratch := Patch.apply ⟨n, i.toNat * v.format.size, bytes⟩ m.scratch }

/-- The patches of the writes that are done, up to the first that fails. -/
def patches (m : Memory) : List Write → List Patch
  | [] => []
  | w :: r =>
    match w.address with
    | .error _ => []
    | .ok i =>
      match m.written w.view i w.value with
      | .error _ => []
      | .ok bytes => w.view.patches i bytes ++ (m.put w.view i bytes).patches r

variable {m : Memory} {gs : List Buffer} {v : View} {i : Int} {x : Value}

/-! ## Slots -/

theorem slot_eq_ok {b : Buffer} {t : ScalarType} {a : Access} {n : Nat}
    (h : slot b t i a = .ok n) : n = i.toNat ∧ n * t.size + t.size ≤ b.size := by
  unfold slot at h
  split at h
  · rename_i hbounds
    cases h
    refine ⟨rfl, ?_⟩
    have hlt : i.toNat < b.size / t.size := by
      have := hbounds.2
      unfold Buffer.lengthAs at this
      omega
    rw [← Nat.succ_mul]
    exact Nat.mul_le_of_le_div _ _ _ hlt
  · cases h

theorem slot_eq_of_shape {b g : Buffer} (h : g.shape = b.shape) (t : ScalarType) (a : Access) :
    slot g t i a = slot b t i a := by
  have hsize : g.size = b.size := congrArg Prod.snd h
  unfold slot Buffer.lengthAs
  rw [hsize]

/-- A buffer that is found is found on other buffers as well, in the same shape. -/
theorem shape_buffer? (hs : shapes m.globals = shapes gs) (r : BufferRef) :
    (m.buffer? r).map Buffer.shape = ((m.on gs).buffer? r).map Buffer.shape := by
  cases r with
  | global n => exact shape_getElem? hs n
  | scratch n => rfl

theorem resolve_on (hs : shapes m.globals = shapes gs) (a : Access) :
    (∃ f, m.resolve v a = .error f ∧ (m.on gs).resolve v a = .error f) ∨
      ∃ b g, m.resolve v a = .ok b ∧ (m.on gs).resolve v a = .ok g ∧ g.shape = b.shape := by
  have hshape := shape_buffer? hs v.buffer
  unfold resolve
  cases hb : m.buffer? v.buffer with
  | none =>
    rw [hb] at hshape
    rw [Option.map_eq_none_iff.mp hshape.symm]
    exact .inl ⟨_, rfl, rfl⟩
  | some b =>
    rw [hb] at hshape
    obtain ⟨g, hg, hgb⟩ := Option.map_eq_some_iff.mp hshape.symm
    rw [hg]
    exact .inr ⟨b, g, rfl, rfl, hgb⟩

/-! ## Writes -/

theorem put_eq_setBuffer {b : Buffer} {bytes : List UInt8} (hb : m.buffer? v.buffer = some b) :
    m.setBuffer v.buffer { b with bytes := overwrite b.bytes (i.toNat * v.format.size) bytes } =
      m.put v i bytes := by
  obtain ⟨r, t⟩ := v
  have hset : ∀ {bs : List Buffer} {n : Nat}, bs[n]? = some b →
      bs.set n { b with bytes := overwrite b.bytes (i.toNat * t.size) bytes } =
        Patch.apply ⟨n, i.toNat * t.size, bytes⟩ bs := by
    intro bs n hn
    rw [Patch.apply, List.modify_eq_set_getElem?, hn]
    rfl
  cases r with
  | global n => exact congrArg (fun bs => { m with globals := bs }) (hset hb)
  | scratch n => exact congrArg (fun bs => { m with scratch := bs }) (hset hb)

theorem resolve_eq_ok {a : Access} {b : Buffer} :
    m.resolve v a = .ok b ↔ m.buffer? v.buffer = some b := by
  unfold resolve
  cases m.buffer? v.buffer with
  | none => simp
  | some b' => simp

theorem write_eq (m : Memory) (v : View) (i : Int) (x : Value) :
    m.write v i x = (m.written v i x).map (m.put v i) := by
  refine bind_map_of fun b hb => bind_map_of fun n hn => ?_
  obtain ⟨rfl, hfits⟩ := slot_eq_ok hn
  rw [Buffer.writeAs, if_pos hfits]
  cases encodeElement v.format x with
  | error e => rfl
  | ok bytes => exact congrArg Except.ok (put_eq_setBuffer (resolve_eq_ok.mp hb))

theorem written_on (hs : shapes m.globals = shapes gs) :
    (m.on gs).written v i x = m.written v i x := by
  unfold written
  rcases resolve_on (v := v) hs .store with ⟨f, hf, hf'⟩ | ⟨b, g, hb, hg, hshape⟩
  · rw [hf, hf']
  · rw [hb, hg]
    change (slot g v.format i .store >>= _) = (slot b v.format i .store >>= _)
    rw [slot_eq_of_shape hshape]

theorem put_on (bytes : List UInt8) :
    (m.on gs).put v i bytes = (m.put v i bytes).on (Patch.applyAll (v.patches i bytes) gs) := by
  obtain ⟨r, t⟩ := v
  cases r <;> rfl

theorem put_globals (bytes : List UInt8) :
    (m.put v i bytes).globals = Patch.applyAll (v.patches i bytes) m.globals := by
  obtain ⟨r, t⟩ := v
  cases r <;> rfl

/-- On other buffers of the same shapes the same writes are done. -/
theorem perform_on (hs : shapes m.globals = shapes gs) (ws : List Write) :
    (m.on gs).perform ws =
      ((m.perform ws).1.on (Patch.applyAll (m.patches ws) gs), (m.perform ws).2) := by
  induction ws generalizing m gs with
  | nil => rfl
  | cons w ws ih =>
    unfold perform patches
    cases w.address with
    | error f => rfl
    | ok i =>
      dsimp only
      rw [write_eq, write_eq, written_on hs]
      cases m.written w.view i w.value with
      | error f => rfl
      | ok bytes =>
        have hshapes : shapes (m.put w.view i bytes).globals =
            shapes (Patch.applyAll (w.view.patches i bytes) gs) := by
          rw [put_globals, Patch.shapes_applyAll, Patch.shapes_applyAll, hs]
        change ((m.on gs).put w.view i bytes).perform ws = _
        rw [put_on, ih hshapes, ← Patch.applyAll_append]
        rfl

/-! ## Where patches come from -/

theorem length_wordBytes (w size : Nat) : (wordBytes w size).length = size := by
  induction size generalizing w with
  | zero => rfl
  | succ size ih => rw [wordBytes, List.length_cons, ih]

theorem length_encodeElement {t : ScalarType} {bytes : List UInt8}
    (h : encodeElement t x = .ok bytes) : bytes.length = t.size := by
  unfold encodeElement at h
  split at h
  · cases h
  · obtain ⟨w, -, rfl⟩ := map_eq_ok.mp h
    exact length_wordBytes _ _

theorem length_written {bytes : List UInt8} (h : m.written v i x = .ok bytes) :
    bytes.length = v.format.size := by
  obtain ⟨b, -, h⟩ := bind_eq_ok.mp h
  obtain ⟨n, -, h⟩ := bind_eq_ok.mp h
  exact length_encodeElement (mapError_eq_ok.mp h)

theorem write_of_written {bytes : List UInt8} (h : m.written v i x = .ok bytes) :
    m.write v i x = .ok (m.put v i bytes) := by
  rw [write_eq, h]
  rfl

/-- A patch comes from one of the writes, which is done after those before it. -/
theorem mem_patches {ws : List Write} {w : Patch} (h : w ∈ m.patches ws) :
    ∃ before y after j m' bytes, ws = before ++ y :: after ∧ m.perform before = (m', .ok ()) ∧
      y.address = .ok j ∧ m'.written y.view j y.value = .ok bytes ∧ w ∈ y.view.patches j bytes := by
  induction ws generalizing m with
  | nil => cases h
  | cons y ws ih =>
    unfold patches at h
    cases ha : y.address with
    | error f =>
      rw [ha] at h
      cases h
    | ok j =>
      rw [ha] at h
      dsimp only at h
      cases hw : m.written y.view j y.value with
      | error f =>
        rw [hw] at h
        cases h
      | ok bytes =>
        rw [hw] at h
        rcases List.mem_append.mp h with h | h
        · exact ⟨[], y, ws, j, m, bytes, rfl, rfl, ha, hw, h⟩
        · obtain ⟨before, z, after, k, m', bytes', rfl, hm, hz, hw', hmem⟩ := ih h
          refine ⟨y :: before, z, after, k, m', bytes', rfl, ?_, hz, hw', hmem⟩
          rw [perform, ha]
          dsimp only
          rw [write_of_written hw]
          exact hm

/-! ## Reads -/

/-- A read that fails does so on account of the shapes. -/
theorem read_on_of_error (hs : shapes m.globals = shapes gs) {f : Fault}
    (h : m.read v i = .error f) : (m.on gs).read v i = .error f := by
  unfold read at h ⊢
  rcases resolve_on (v := v) hs .load with ⟨f', hf, hf'⟩ | ⟨b, g, hb, hg, hshape⟩
  · rw [hf] at h
    rw [hf']
    exact h
  · rw [hb] at h
    rw [hg]
    change (slot b v.format i .load >>= _) = _ at h
    change (slot g v.format i .load >>= _) = _
    rw [slot_eq_of_shape hshape]
    rcases bind_eq_error.mp h with h | ⟨n, hn, h⟩
    · rw [h]
      rfl
    · obtain ⟨-, hfits⟩ := slot_eq_ok hn
      rw [Buffer.readAs?, if_pos hfits] at h
      cases h

theorem read_on_of_eq (h : (m.on gs).buffer? v.buffer = m.buffer? v.buffer) :
    (m.on gs).read v i = m.read v i := by
  unfold read resolve
  rw [h]

end Memory

end Lockstep
