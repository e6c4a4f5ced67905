import Lockstep.Manifest.Report
import Lockstep.Proofs.Buffer.RoundTrip
import Lockstep.Proofs.Launch.Trace

/-!
# Runs of manifests

A manifest that runs has read its program, filled its buffers and seen the launch halt. The
launch changes no shape of a buffer, so the buffers that are compared are those of the
manifest, in order, and each has the size it is listed with.
-/

namespace Lockstep

theorem causing_eq_ok {ε α : Type} {cause : ε → Cause} {x : Except ε α} {a : α} :
    causing cause x = .ok a ↔ x = .ok a :=
  mapError_eq_ok

theorem Buffer.shape_ofValues {t : ScalarType} {vs : List Value} {b : Buffer}
    (h : ofValues t vs = .ok b) : b.shape = (zeros t vs.length).shape := by
  refine (read?_of_writeAll ?_ h).1
  rw [length_zeros, Nat.zero_add]

theorem Buffer.length_ofValues {t : ScalarType} {vs : List Value} {b : Buffer}
    (h : ofValues t vs = .ok b) : b.length = vs.length := by
  rw [length_of_shape (shape_ofValues h), length_zeros]

namespace BufferEntry

variable {x : BufferEntry} {b : Buffer} {t : ScalarType} {vs : List Value}

theorem length_sequence {start step : Binary64} {i count : Nat}
    (h : sequence t start step i count = .ok vs) : vs.length = count := by
  induction count generalizing i vs with
  | zero =>
    cases h
    rfl
  | succ count ih =>
    obtain ⟨v, -, h⟩ := bind_eq_ok.mp h
    obtain ⟨rest, hrest, h⟩ := bind_eq_ok.mp h
    cases h
    rw [List.length_cons, ih hrest]

theorem length_filled {values : Except ConvertError (List Value)} {n : Nat}
    (h : filled t values = .ok b) (hlen : ∀ vs, values = .ok vs → vs.length = n) :
    b.length = n := by
  obtain ⟨vs, hvs, hb⟩ := bind_eq_ok.mp (causing_eq_ok.mp h)
  rw [Buffer.length_ofValues hb, hlen vs hvs]

/-- Whatever the pattern, the first contents have the size that is asked for. -/
theorem length_input (h : x.input = .ok b) : b.length = x.size := by
  unfold input at h
  obtain ⟨t, -, h⟩ := bind_eq_ok.mp h
  split at h
  next =>
    cases h
    exact Buffer.length_zeros _ _
  next start step =>
    exact length_filled h fun vs hvs => length_sequence hvs
  next l =>
    refine length_filled h ?_
    intro vs hvs
    obtain ⟨v, -, rfl⟩ := map_eq_ok.mp hvs
    exact List.length_replicate
  next ls =>
    split at h
    next hsize =>
      refine length_filled h ?_
      intro vs hvs
      rw [length_of_mapM hvs, hsize]
    next hsize => cases h

end BufferEntry

namespace Manifest

variable {m : Manifest} {limit : Nat} {wait : Bool} {e : Engine} {bs : List Buffer} {r : Report}

theorem launch_of_execute (h : m.execute limit wait = .ok (e, bs)) :
    ∃ first, ∃ e₀ : Engine, m.inputs = .ok first ∧
      e₀.launch limit (m.launch wait) first = (e, bs, .halted) := by
  obtain ⟨p, -, h⟩ := bind_eq_ok.mp h
  obtain ⟨first, hfirst, h⟩ := bind_eq_ok.mp h
  obtain ⟨e₀, -, h⟩ := bind_eq_ok.mp h
  split at h
  next hlaunch =>
    cases h
    exact ⟨first, e₀, hfirst, hlaunch⟩
  next => cases h
  next => cases h

theorem run_eq_ok : m.run limit wait = .ok r ↔ ∃ e bs, m.execute limit wait = .ok (e, bs) ∧
    r = ⟨m.name, .ofBuffers m.buffers bs, e.instructions, wait⟩ := by
  unfold run
  rw [bind_eq_ok]
  constructor
  · rintro ⟨⟨e, bs⟩, hexecute, h⟩
    cases h
    exact ⟨e, bs, hexecute, rfl⟩
  · rintro ⟨e, bs, hexecute, rfl⟩
    exact ⟨(e, bs), hexecute, rfl⟩

/-- The launch keeps the shapes of its buffers. -/
theorem shapes_execute (h : m.execute limit wait = .ok (e, bs)) :
    ∃ first, m.inputs = .ok first ∧ shapes bs = shapes first := by
  obtain ⟨first, e₀, hfirst, hlaunch⟩ := launch_of_execute h
  have hglobals := e₀.launch_globals limit (m.launch wait) first
  have hbs : (e₀.launch limit (m.launch wait) first).2.1 = bs := by rw [hlaunch]
  refine ⟨first, hfirst, ?_⟩
  rw [← hbs, hglobals, Patch.shapes_applyAll]

theorem length_execute (h : m.execute limit wait = .ok (e, bs)) :
    bs.length = m.buffers.length := by
  obtain ⟨first, hfirst, hshapes⟩ := shapes_execute h
  have hlength := congrArg List.length hshapes
  rw [shapes, shapes, List.length_map, List.length_map] at hlength
  rw [hlength, length_of_mapM hfirst]

/-- After the launch every buffer has the size it is listed with. -/
theorem size_execute (h : m.execute limit wait = .ok (e, bs)) {k : Nat} {x : BufferEntry}
    {b : Buffer} (hx : m.buffers[k]? = some x) (hb : bs[k]? = some b) : b.length = x.size := by
  obtain ⟨first, hfirst, hshapes⟩ := shapes_execute h
  obtain ⟨b₀, hb₀, hinput⟩ := getElem?_of_mapM hfirst hx
  have hshape := shape_getElem? hshapes k
  rw [hb, hb₀] at hshape
  rw [Buffer.length_of_shape (Option.some.inj hshape), BufferEntry.length_input hinput]

end Manifest

end Lockstep
