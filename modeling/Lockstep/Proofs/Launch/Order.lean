import Lockstep.Proofs.Launch.Trace
import Mathlib.Data.List.Perm.Basic

/-!
# The order of the grid points

Grid points that store to different bytes, and load from no buffer that is stored
to, may run in any order.
-/

namespace Lockstep

/-- The elements of a permutation of images are the images of a permutation. -/
theorem exists_perm_of_perm_map {α β : Type} {f : α → β} {l : List α} {r : List β}
    (h : r.Perm (l.map f)) : ∃ k : List α, k.Perm l ∧ k.map f = r := by
  have hmap : List.Forall₂ (fun b a => b = f a) (l.map f) l :=
    List.forall₂_map_left_iff.mpr (List.forall₂_same.mpr fun _ _ => rfl)
  obtain ⟨k, hk, hperm⟩ := List.perm_comp_forall₂ h hmap
  refine ⟨k, hperm, ?_⟩
  have heq : List.Forall₂ (· = ·) r (k.map f) := List.forall₂_map_right_iff.mpr hk
  rw [List.forall₂_eq_eq_eq] at heq
  exact heq.symm

/-- Whatever is in the buffers of the set, the grid point halts and leaves these
patches, which are in the set. -/
structure Settles (p : Program) (limit : Nat) (l : Launch) (S : Set Nat) (bs : List Buffer)
    (x : Point) (ws : List Patch) : Prop where
  halts : ∀ (e : Engine) (gs : List Buffer), e.program = p → AgreeOff S bs gs →
    (e.runPoint limit l x gs).2 = (Patch.applyAll ws gs, .halted)
  mem : ∀ w ∈ ws, w.buffer ∈ S

namespace Engine

variable {e : Engine} {limit : Nat} {l : Launch} {S : Set Nat} {bs bs' gs : List Buffer}

/-- Settled grid points halt one after the other, each with its patches. -/
theorem runOrder_of_settles {p : Program} {qs : List (Point × List Patch)}
    (h : ∀ q ∈ qs, Settles p limit l S bs q.1 q.2) (he : e.program = p) (hgs : AgreeOff S bs gs) :
    (e.runOrder limit l gs (qs.map Prod.fst)).2 =
      (Patch.applyAll (qs.map Prod.snd).flatten gs, .halted) := by
  induction qs generalizing e gs with
  | nil => rfl
  | cons q qs ih =>
    have hq := h q List.mem_cons_self
    have hpoint := hq.halts e gs he hgs
    have hprogram : (e.runPoint limit l q.1 gs).1.program = p := he
    rw [List.map_cons, runOrder, List.map_cons, List.flatten_cons, Patch.applyAll_append]
    generalize e.runPoint limit l q.1 gs = r at hpoint hprogram ⊢
    obtain ⟨e', gs', ending⟩ := r
    obtain ⟨rfl, rfl⟩ := Prod.mk.inj hpoint
    exact ih (fun q' hq' => h q' (List.mem_cons_of_mem _ hq')) hprogram
      (hgs.trans (.of_patches hq.mem gs))

/-- The grid points of an order that all halt are settled if none loads from the
set and all store in it. -/
theorem settles_of_halted {xs : List Point} (hhalt : (e.runOrder limit l bs xs).2.2 = .halted)
    (hbs : AgreeOff S bs' bs)
    (hload : ∀ t ∈ (histories e.program limit l bs xs).flatten, ∀ n ∈ t.loaded e.program, n ∉ S)
    (hstore : ∀ w ∈ Lockstep.patches e.program (histories e.program limit l bs xs).flatten,
      w.buffer ∈ S) :
    ∃ qs : List (Point × List Patch), qs.map Prod.fst = xs ∧
      qs.map Prod.snd = (histories e.program limit l bs xs).map (Lockstep.patches e.program) ∧
      ∀ q ∈ qs, Settles e.program limit l S bs' q.1 q.2 := by
  induction xs generalizing e bs with
  | nil => exact ⟨[], rfl, rfl, nofun⟩
  | cons x xs ih =>
    obtain ⟨c, ending, hrun⟩ : ∃ c ending,
        run e.program limit (.start x ⟨l.warp⟩ bs l.launchValues) = (c, ending) := ⟨_, _, rfl⟩
    have hglobals := run_globals e.program limit (.start x ⟨l.warp⟩ bs l.launchValues)
    rw [hrun] at hglobals
    rw [histories, hrun, List.flatten_cons] at hload
    rw [histories, hrun, List.flatten_cons, Lockstep.patches_append] at hstore
    rw [runOrder, runPoint, hrun] at hhalt
    rw [histories, hrun]
    cases ending with
    | halted =>
      have hmem := fun w hw => hstore w (List.mem_append_left _ hw)
      have hrest : AgreeOff S bs' c.memory.globals := by
        rw [hglobals]
        exact hbs.trans (.of_patches hmem bs)
      obtain ⟨qs, hfst, hsnd, hqs⟩ := ih hhalt hrest
        (fun t ht => hload t (List.mem_append_right _ ht))
        (fun w hw => hstore w (List.mem_append_right _ hw))
      refine ⟨(x, Lockstep.patches e.program
        (history e.program limit (.start x ⟨l.warp⟩ bs l.launchValues))) :: qs,
        by rw [List.map_cons, hfst], by rw [List.map_cons, hsnd]; rfl, ?_⟩
      intro q hq
      rcases List.mem_cons.mp hq with rfl | hq
      · refine ⟨fun e' gs he' hgs => ?_, hmem⟩
        have hon : e'.runPoint limit l x gs = _ := runPoint_on (hbs.symm.trans hgs)
          (by rw [he']; exact fun t ht => hload t (List.mem_append_left _ ht))
        rw [hon, he', runPoint, he', hrun]
      · exact hqs q hq
    | _ => cases hhalt

/-- If a launch halts at every grid point, loads from no buffer that it stores to,
and stores to different bytes at different grid points, then the grid points halt
in any order and leave the same buffers. -/
theorem runOrder_of_perm {order : List Point} (hhalt : (e.launch limit l bs).2.2 = .halted)
    (hload : ∀ n ∈ e.loaded limit l bs, n ∉ e.stored limit l bs)
    (hapart : (histories e.program limit l bs (Grid.points l.global)).Pairwise fun ts ts' =>
      Patch.Apart (Lockstep.patches e.program ts) (Lockstep.patches e.program ts'))
    (horder : order.Perm (Grid.points l.global)) :
    (e.runOrder limit l bs order).2 = ((e.launch limit l bs).2.1, .halted) := by
  rw [launch_eq] at hhalt ⊢
  obtain ⟨qs, hfst, hsnd, hqs⟩ := settles_of_halted (S := {n | n ∈ e.stored limit l bs}) hhalt
    (AgreeOff.refl bs) (fun t ht n hn => hload n (List.mem_flatMap.mpr ⟨t, ht, hn⟩))
    (fun w hw => List.mem_map_of_mem hw)
  have hpairs : (qs.map Prod.snd).Pairwise Patch.Apart := by
    rw [hsnd]
    exact List.pairwise_map.mpr hapart
  have hlaunch := runOrder_of_settles hqs rfl (AgreeOff.refl bs)
  rw [hfst] at hlaunch
  rw [← hfst] at horder
  obtain ⟨qs', hperm, rfl⟩ := exists_perm_of_perm_map horder
  have hsettled := runOrder_of_settles (fun q hq => hqs q (hperm.mem_iff.mp hq)) rfl
    (AgreeOff.refl bs)
  rw [hsettled, Patch.applyAll_flatten_of_perm (hperm.map Prod.snd) hpairs]
  exact Prod.ext (congrArg Prod.fst hlaunch).symm rfl

/-- The two grid points of `copy` may run the other way round. -/
theorem runOrder_of_perm_copy :
    ((mk .copy .ready 0 0).runOrder 6 copyLaunch (copyBuffers #[0, 0]) [⟨1, 0, 0⟩, ⟨0, 0, 0⟩]).2 =
      (((mk .copy .ready 0 0).launch 6 copyLaunch (copyBuffers #[0, 0])).2.1, .halted) := by
  have hstored : (mk .copy .ready 0 0).stored 6 copyLaunch (copyBuffers #[0, 0]) = [0, 0] := by
    decide +kernel
  have hloaded : (mk .copy .ready 0 0).loaded 6 copyLaunch (copyBuffers #[0, 0]) = [1, 1] := by
    decide +kernel
  have hpatches : (histories .copy 6 copyLaunch (copyBuffers #[0, 0])
      (Grid.points copyLaunch.global)).map (Lockstep.patches .copy) =
      [[⟨0, 0, [5]⟩], [⟨0, 1, [7]⟩]] := by decide +kernel
  have hapart : [[(⟨0, 0, [5]⟩ : Patch)], [⟨0, 1, [7]⟩]].Pairwise Patch.Apart := by
    simp [Patch.Apart, Patch.Covers]
  rw [← hpatches] at hapart
  exact runOrder_of_perm (by decide +kernel) (by simp [hstored, hloaded])
    (List.pairwise_map.mp hapart) (by decide)

end Engine

end Lockstep
