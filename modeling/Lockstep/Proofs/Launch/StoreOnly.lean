import Lockstep.Proofs.Launch.Trace

/-!
# Store-only buffers

What is in the buffers that a launch only stores to has no influence on it: the
launch ends in the same way, leaves the same bytes where it stores, and leaves the
rest as it was.
-/

namespace Lockstep.Engine

variable {e : Engine} {limit : Nat} {l : Launch} {S : Set Nat} {bs gs : List Buffer}

/-- The launch stores to the byte. -/
def Writes (e : Engine) (limit : Nat) (l : Launch) (bs : List Buffer) (n k : Nat) : Prop :=
  ∃ w ∈ e.patches limit l bs, w.Covers n k

/-- What comes of a launch depends on the program of the engine, not on its
counts. -/
theorem runOrder_of_program {e' : Engine} (h : e'.program = e.program) (xs : List Point) :
    (e'.runOrder limit l bs xs).2 = (e.runOrder limit l bs xs).2 := by
  induction xs generalizing e e' bs with
  | nil => rfl
  | cons x xs ih =>
    rw [runOrder, runOrder, runPoint, runPoint, h]
    obtain ⟨c, ending⟩ := run e.program limit (.start x ⟨l.warp⟩ bs l.launchValues)
    cases ending with
    | halted => exact ih rfl
    | _ => rfl

theorem launch_of_program {e' : Engine} (h : e'.program = e.program) :
    (e'.launch limit l bs).2 = (e.launch limit l bs).2 := by
  rw [launch_eq, launch_eq]
  exact runOrder_of_program h _

/-- A launch on the buffers that it left leaves them as they are. -/
theorem launch_again {e' : Engine} (h : e'.program = e.program)
    (hstored : ∀ n ∈ e.stored limit l bs, n ∈ S) (hloaded : ∀ n ∈ e.loaded limit l bs, n ∉ S) :
    (e'.launch limit l (e.launch limit l bs).2.1).2 = (e.launch limit l bs).2 := by
  have hout : AgreeOff S bs (e.launch limit l bs).2.1 := by
    rw [launch_globals]
    exact .of_patches (fun w hw => hstored _ (List.mem_map_of_mem hw)) bs
  rw [launch_of_program h, launch_on hout hloaded, launch_globals]
  refine Prod.ext ?_ rfl
  rw [launch_globals]
  exact Patch.applyAll_idem _ _

/-- Let a launch store to no buffer outside a set and load from none inside it.
On buffers of the same shapes that differ in the set only, the launch ends in the
same way with the same counts and leaves the buffers outside the set alone. In the
set it leaves the same bytes where it stores, and the others as they were. A
launch on the buffers that it left changes nothing. -/
theorem launch_off_stored (hshapes : shapes bs = shapes gs)
    (hstored : ∀ n ∈ e.stored limit l bs, n ∈ S) (hloaded : ∀ n ∈ e.loaded limit l bs, n ∉ S)
    (hoff : ∀ n, n ∉ S → gs[n]? = bs[n]?) :
    (e.launch limit l gs).1 = (e.launch limit l bs).1 ∧
    (e.launch limit l gs).2.2 = (e.launch limit l bs).2.2 ∧
    shapes (e.launch limit l gs).2.1 = shapes gs ∧
    (∀ n, n ∉ S → (e.launch limit l gs).2.1[n]? = gs[n]?) ∧
    (∀ n k, e.Writes limit l bs n k →
      byte? (e.launch limit l gs).2.1 n k = byte? (e.launch limit l bs).2.1 n k) ∧
    (∀ n k, ¬ e.Writes limit l bs n k →
      byte? (e.launch limit l gs).2.1 n k = byte? gs n k) ∧
    ∀ e' : Engine, e'.program = e.program →
      (e'.launch limit l (e.launch limit l bs).2.1).2 = (e.launch limit l bs).2 := by
  have hon := launch_on (l := l) ⟨hshapes, hoff⟩ hloaded
  refine ⟨by rw [hon], by rw [hon], by rw [hon, Patch.shapes_applyAll], ?_, ?_, ?_, ?_⟩
  · intro n hn
    rw [hon]
    refine Patch.getElem?_applyAll_of_ne fun w hw he => hn ?_
    rw [← he]
    exact hstored _ (List.mem_map_of_mem hw)
  · intro n k hw
    rw [hon, launch_globals]
    exact Patch.byte?_applyAll_of_covers hshapes.symm hw
  · intro n k hw
    rw [hon]
    exact Patch.byte?_applyAll_of_not_covers fun w hmem hc => hw ⟨w, hmem, hc⟩
  · exact fun e' he' => launch_again he' hstored hloaded

/-- `copy` leaves the same in the buffer that it copies to, whatever was there. -/
theorem launch_off_stored_copy :
    byte? ((mk .copy .ready 0 0).launch 6 copyLaunch (copyBuffers #[8, 9])).2.1 0 1 =
      byte? ((mk .copy .ready 0 0).launch 6 copyLaunch (copyBuffers #[0, 0])).2.1 0 1 := by
  have hstored : (mk .copy .ready 0 0).stored 6 copyLaunch (copyBuffers #[0, 0]) = [0, 0] := by
    decide +kernel
  have hloaded : (mk .copy .ready 0 0).loaded 6 copyLaunch (copyBuffers #[0, 0]) = [1, 1] := by
    decide +kernel
  have hpatches : (mk .copy .ready 0 0).patches 6 copyLaunch (copyBuffers #[0, 0]) =
      [⟨0, 0, [5]⟩, ⟨0, 1, [7]⟩] := by decide +kernel
  have h := @launch_off_stored (mk .copy .ready 0 0) 6 copyLaunch {0} (copyBuffers #[0, 0])
    (copyBuffers #[8, 9]) (by decide) (by simp [hstored]) (by simp [hloaded]) (by
      intro n hn
      match n with
      | 0 => exact absurd rfl hn
      | n + 1 => rfl)
  refine h.2.2.2.2.1 0 1 ⟨⟨0, 1, [7]⟩, ?_, by decide⟩
  rw [hpatches]
  decide

end Lockstep.Engine
