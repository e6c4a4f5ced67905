import Lockstep.Proofs.Launch.Trace

/-!
# What a launch leaves alone

A launch keeps the buffers of its caller in number, format and size. It changes a
byte only where one of its stores writes the element that the byte belongs to,
through a view that is in the first operand of the store.
-/

namespace Lockstep

/-! ## The target of a store -/

/-- The step executes a store whose first operand holds the view. -/
def Moment.Targets (p : Program) (t : Moment) (v : View) : Prop :=
  ∃ u s r views, p.get? t.before.pc = some u ∧ u.kind = .store ∧ p.valueOperands u = s :: r ∧
    t.before.values.get? s = some (.buffer views) ∧ v ∈ views

/-- The step executes a store that writes the element of this number through the
view. The writes before it are done; those after it may fail. -/
structure Moment.Writes (p : Program) (t : Moment) (v : View) (i : Int) : Prop where
  targets : t.Targets p v
  writes : ∃ u ops before x after m m', p.get? t.before.pc = some u ∧
    gather p u t.before = .ok ops ∧
    storeWrites t.before.pc ops = .ok (before ++ ⟨v, .ok i, x⟩ :: after) ∧
    t.before.memory.perform before = (m, .ok ()) ∧ m.write v i x = .ok m'

/-- The byte belongs to the element of this number. -/
def View.HoldsByte (v : View) (i : Int) (k : Nat) : Prop :=
  i.toNat * v.format.size ≤ k ∧ k < (i.toNat + 1) * v.format.size

/-! ## Steps -/

variable {p : Program} {u : Uop} {c : Context} {ops : List Operand}

/-- The first operand of an instruction has the value at the first position that
the instruction names. -/
theorem first_of_gather {o : Operand} {r : List Operand} (h : gather p u c = .ok (o :: r)) :
    ∃ s r', p.valueOperands u = s :: r' ∧ c.values.get? s = some o.values := by
  cases hs : p.valueOperands u with
  | nil =>
    unfold gather at h
    rw [hs] at h
    cases h
  | cons s r' =>
    have hall := mapM_eq_ok.mp h
    rw [hs, List.forall₂_cons] at hall
    exact ⟨s, r', rfl, (operand_eq_ok.mp hall.1).1⟩

/-- The patches of a step are elements that it writes. -/
theorem Moment.writes_of_mem_patches {t : Moment} {w : Patch} (h : w ∈ t.before.patches p) :
    ∃ v i, t.Writes p v i ∧ v.buffer = .global w.buffer ∧
      ∀ k, w.start ≤ k → k < w.start + w.bytes.length → v.HoldsByte i k := by
  unfold Context.patches at h
  split at h
  · cases h
  · rename_i u hu
    split at h
    · rename_i hk
      split at h
      · rename_i ws hws
        obtain ⟨ops, hg, hw⟩ := bind_eq_ok.mp hws
        obtain ⟨before, ⟨v, a, x⟩, after, i, m, bytes, rfl, hm, rfl, hbytes, hmem⟩ :=
          Memory.mem_patches h
        obtain ⟨o, r, views, rfl, hviews, hv⟩ := view_mem_of_storeWrites hw
          (List.mem_append_right before List.mem_cons_self)
        obtain ⟨s, r', hs, hvalue⟩ := first_of_gather hg
        rw [hviews] at hvalue
        have hlength := Memory.length_written hbytes
        refine ⟨v, i, ⟨⟨u, s, r', views, hu, hk, hs, hvalue, hv⟩, u, _, before, x, after, m, _, hu,
          hg, hw, hm, Memory.write_of_written hbytes⟩, ?_⟩
        unfold View.patches at hmem
        dsimp only at hmem hlength
        split at hmem
        · rename_i n hn
          obtain rfl := List.mem_singleton.mp hmem
          refine ⟨hn, fun k hle hlt => ⟨hle, ?_⟩⟩
          dsimp only at hlt
          rw [hlength] at hlt
          rwa [Nat.succ_mul]
        · cases hmem
      · cases h
    · cases h

/-! ## Launches -/

namespace Engine

variable {e : Engine} {limit : Nat} {l : Launch} {bs : List Buffer} {n k : Nat}

theorem writes_of_byte?_ne (h : byte? (e.launch limit l bs).2.1 n k ≠ byte? bs n k) :
    ∃ t ∈ e.moments limit l bs, ∃ v i, t.Writes e.program v i ∧ v.buffer = .global n ∧
      v.HoldsByte i k := by
  obtain ⟨w, hw, hc⟩ : ∃ w ∈ e.patches limit l bs, w.Covers n k := by
    by_contra hnone
    refine h ?_
    rw [launch_globals]
    exact Patch.byte?_applyAll_of_not_covers fun w hw hc => hnone ⟨w, hw, hc⟩
  obtain ⟨t, ht, hw⟩ := List.mem_flatMap.mp hw
  obtain ⟨v, i, hwrites, hv, hbyte⟩ := Moment.writes_of_mem_patches hw
  obtain ⟨rfl, hstart, hend⟩ := hc
  exact ⟨t, ht, v, i, hwrites, hv, hbyte k hstart hend⟩

/-- A launch, whether it succeeds or fails, keeps the buffers in number, format and
size. A byte that is not what it was belongs to an element that an executed store
has written through a view in its first operand. A buffer that no view in the
first operand of an executed store leads to is what it was. -/
theorem launch_frame (e : Engine) (limit : Nat) (l : Launch) (bs : List Buffer) :
    shapes (e.launch limit l bs).2.1 = shapes bs ∧
    (∀ n k, byte? (e.launch limit l bs).2.1 n k ≠ byte? bs n k →
      ∃ t ∈ e.moments limit l bs, ∃ v i, t.Writes e.program v i ∧ v.buffer = .global n ∧
        v.HoldsByte i k) ∧
    ∀ n, (∀ t ∈ e.moments limit l bs, ∀ v, t.Targets e.program v → v.buffer ≠ .global n) →
      (e.launch limit l bs).2.1[n]? = bs[n]? := by
  refine ⟨?_, fun n k => writes_of_byte?_ne, fun n hn => ?_⟩
  · rw [launch_globals, Patch.shapes_applyAll]
  · rw [launch_globals]
    refine Patch.getElem?_applyAll_of_ne fun w hw he => ?_
    obtain ⟨t, ht, hw⟩ := List.mem_flatMap.mp hw
    obtain ⟨v, i, hwrites, hv, -⟩ := Moment.writes_of_mem_patches hw
    exact hn t ht v hwrites.targets (by rw [hv, he])

/-- `copy` changes the second byte of its first buffer: some store has written the
element there. -/
theorem launch_frame_copy :
    ∃ t ∈ (mk .copy .ready 0 0).moments 6 copyLaunch (copyBuffers #[0, 0]), ∃ v i,
      t.Writes .copy v i ∧ v.buffer = .global 0 ∧ v.HoldsByte i 1 :=
  (launch_frame (mk .copy .ready 0 0) 6 copyLaunch (copyBuffers #[0, 0])).2.1 0 1
    (by decide +kernel)

end Engine

end Lockstep
