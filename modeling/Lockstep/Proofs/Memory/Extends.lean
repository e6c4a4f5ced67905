import Lockstep.Proofs.Memory.Replay

/-!
# Memory grows

No access takes a buffer away, moves it or changes its shape. So a handle that
stands for a buffer goes on doing so.
-/

namespace Lockstep

namespace Memory

/-- The second memory has at least the buffers of the first, in the same places
and of the same shapes. -/
structure Extends (m m' : Memory) : Prop where
  bound : m.bound ≤ m'.bound
  globals : shapes m'.globals = shapes m.globals
  scratch : shapes m.scratch <+: shapes m'.scratch

/-- The view stands for a buffer: a bound one of the caller whose bytes are a
whole number of elements, or an allocated one of the same format. -/
def Holds (m : Memory) (v : View) : Prop :=
  match v.buffer with
  | .global i => i < m.bound ∧ ∃ b, m.globals[i]? = some b ∧ v.format.size ∣ b.size
  | .scratch i => ∃ b, m.scratch[i]? = some b ∧ b.format = v.format

variable {m m' m'' : Memory} {v : View}

namespace Extends

theorem refl (m : Memory) : m.Extends m :=
  ⟨Nat.le_refl _, rfl, List.prefix_refl _⟩

theorem trans (h : m.Extends m') (h' : m'.Extends m'') : m.Extends m'' :=
  ⟨Nat.le_trans h.bound h'.bound, h'.globals.trans h.globals, h.scratch.trans h'.scratch⟩

end Extends

theorem Holds.mono (h : m.Holds v) (he : m.Extends m') : m'.Holds v := by
  obtain ⟨r, t⟩ := v
  cases r with
  | global i =>
    obtain ⟨hi, b, hb, hsize⟩ := h
    have hshape := shape_getElem? he.globals i
    rw [hb] at hshape
    rcases Option.map_eq_some_iff.mp hshape with ⟨b', hb', hs⟩
    refine ⟨Nat.lt_of_lt_of_le hi he.bound, b', hb', ?_⟩
    rwa [show b'.size = b.size from congrArg Prod.snd hs]
  | scratch i =>
    obtain ⟨b, hb, hformat⟩ := h
    have hget : (shapes m.scratch)[i]? = some b.shape := by simp [shapes, hb]
    have hshape := (List.prefix_iff_getElem?.mp he.scratch) i
      (List.getElem?_eq_some_iff.mp hget).1
    rw [(List.getElem?_eq_some_iff.mp hget).2] at hshape
    simp only [shapes, List.getElem?_map] at hshape
    rcases Option.map_eq_some_iff.mp hshape with ⟨b', hb', hs⟩
    refine ⟨b', hb', ?_⟩
    rw [show b'.format = b.format from congrArg Prod.fst hs]
    exact hformat

/-- A view that stands for a buffer finds one. -/
theorem Holds.buffer? (h : m.Holds v) : m.buffer? v.buffer ≠ none := by
  obtain ⟨r, t⟩ := v
  cases r with
  | global i =>
    obtain ⟨-, b, hb, -⟩ := h
    simp [Memory.buffer?, hb]
  | scratch i =>
    obtain ⟨b, hb, -⟩ := h
    simp [Memory.buffer?, hb]

/-! ## What extends a memory -/

theorem extends_put (m : Memory) (v : View) (i : Int) (bytes : List UInt8) :
    m.Extends (m.put v i bytes) := by
  obtain ⟨r, t⟩ := v
  cases r with
  | global n => exact ⟨Nat.le_refl _, Patch.shapes_apply _ _, List.prefix_refl _⟩
  | scratch n =>
    have hshapes : shapes (m.put ⟨.scratch n, t⟩ i bytes).scratch = shapes m.scratch :=
      Patch.shapes_apply _ _
    exact ⟨Nat.le_refl _, rfl, hshapes ▸ List.prefix_refl _⟩

/-- A list of writes changes bytes only, however many of them are done. -/
theorem perform_keeps (ws : List Write) (m : Memory) :
    m.Extends (m.perform ws).1 ∧ (m.perform ws).1.bound = m.bound ∧
      (m.perform ws).1.scratch.length = m.scratch.length := by
  induction ws generalizing m with
  | nil => exact ⟨.refl m, rfl, rfl⟩
  | cons w ws ih =>
    unfold perform
    cases w.address with
    | error f => exact ⟨.refl m, rfl, rfl⟩
    | ok i =>
      dsimp only
      rw [write_eq]
      cases m.written w.view i w.value with
      | error f => exact ⟨.refl m, rfl, rfl⟩
      | ok bytes =>
        obtain ⟨hext, hbound, hlength⟩ := ih (m.put w.view i bytes)
        refine ⟨(extends_put m w.view i bytes).trans hext, hbound.trans ?_, hlength.trans ?_⟩
        · cases hr : w.view.buffer <;> simp [put, hr, on]
        · cases hr : w.view.buffer <;> simp [put, hr, on, Patch.apply]

theorem extends_allocate (m : Memory) (t : ScalarType) (length : Nat) :
    m.Extends (m.allocate t length).2 := by
  refine ⟨Nat.le_refl _, rfl, ?_⟩
  simp [allocate, shapes]

/-- What a new buffer is: the next one, all zero. -/
theorem allocate_eq (m : Memory) (t : ScalarType) (length : Nat) :
    m.allocate t length =
      (⟨.scratch m.scratch.length, t⟩, { m with scratch := m.scratch ++ [.zeros t length] }) :=
  rfl

/-- What it takes to bind a buffer, and what comes of it. -/
theorem bind?_eq_some {t : ScalarType} (h : m.bind? t = some (.ok v, m')) :
    v = ⟨.global m.bound, t⟩ ∧ m' = { m with bound := m.bound + 1 } ∧
      ∃ b, m.globals[m.bound]? = some b ∧ t.size ∣ b.size := by
  obtain ⟨b, hb, h⟩ := Option.map_eq_some_iff.mp h
  obtain ⟨hview, hm⟩ := Prod.mk.inj h
  obtain ⟨u, hu, hv⟩ := map_eq_ok.mp (mapError_eq_ok.mp hview)
  refine ⟨hv.symm, hm.symm, b, hb, ?_⟩
  unfold Buffer.checkView at hu
  split at hu
  · rename_i hfits
    exact Nat.dvd_of_mod_eq_zero (beq_iff_eq.mp hfits)
  · cases hu

end Memory

end Lockstep
