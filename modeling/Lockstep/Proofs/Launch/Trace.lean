import Lockstep.Engine
import Lockstep.Proofs.Run.Within
import Lockstep.Proofs.Step.Replay
import Mathlib.Data.Set.Insert

/-!
# What a launch does to its buffers

The steps of a launch, grid point by grid point, with the buffers that they load
from and the patches that they leave. The same steps are executed on any buffers
of the same shapes that hold the same where the launch loads from.
-/

namespace Lockstep

/-- The buffer of the caller that a view leads to. -/
def View.global? (v : View) : Option Nat :=
  match v.buffer with
  | .global n => some n
  | .scratch _ => none

/-- The buffers of the caller that a load reads an element of. -/
def Moment.loaded (p : Program) (t : Moment) : List Nat :=
  (t.before.reads p).filterMap View.global?

/-- The patches that some steps leave. -/
def patches (p : Program) (ts : List Moment) : List Patch :=
  ts.flatMap fun t => t.before.patches p

theorem patches_append (p : Program) (ts ts' : List Moment) :
    patches p (ts ++ ts') = patches p ts ++ patches p ts' :=
  List.flatMap_append

/-- Buffers of the same shapes that differ only in some of the buffers. -/
structure AgreeOff (S : Set Nat) (bs gs : List Buffer) : Prop where
  shapes : shapes bs = shapes gs
  eq : ∀ n, n ∉ S → gs[n]? = bs[n]?

namespace AgreeOff

variable {S : Set Nat} {bs gs gs' : List Buffer}

theorem refl (bs : List Buffer) : AgreeOff S bs bs := ⟨rfl, fun _ _ => rfl⟩

theorem symm (h : AgreeOff S bs gs) : AgreeOff S gs bs :=
  ⟨h.shapes.symm, fun n hn => (h.eq n hn).symm⟩

theorem trans (h : AgreeOff S bs gs) (h' : AgreeOff S gs gs') : AgreeOff S bs gs' :=
  ⟨h.shapes.trans h'.shapes, fun n hn => (h'.eq n hn).trans (h.eq n hn)⟩

/-- The same patches on both sides. -/
theorem applyAll (h : AgreeOff S bs gs) (ws : List Patch) :
    AgreeOff S (Patch.applyAll ws bs) (Patch.applyAll ws gs) :=
  ⟨by simp [h.shapes], fun n hn => Patch.getElem?_applyAll_congr (h.eq n hn)⟩

/-- Patches in the set. -/
theorem of_patches {ws : List Patch} (h : ∀ w ∈ ws, w.buffer ∈ S) (bs : List Buffer) :
    AgreeOff S bs (Patch.applyAll ws bs) :=
  ⟨by simp, fun n hn => Patch.getElem?_applyAll_of_ne fun w hw he => hn (he ▸ h w hw)⟩

theorem agreesOn {m : Memory} {vs : List View} (h : AgreeOff S m.globals gs)
    (hvs : ∀ n ∈ vs.filterMap View.global?, n ∉ S) : m.AgreesOn gs vs := by
  rintro ⟨r, t⟩ hv
  cases r with
  | global n => exact h.eq n (hvs n (List.mem_filterMap.mpr ⟨_, hv, rfl⟩))
  | scratch n => rfl

end AgreeOff

/-! ## Runs -/

section

variable {p : Program} {c : Context} {S : Set Nat} {bs gs : List Buffer}

theorem Context.follow_on (c : Context) (gs : List Buffer) (k : Control) :
    (c.on gs).follow k = (c.follow k).on gs := by
  cases k <;> rfl

/-- What a step does to the buffers is the patches that it leaves. -/
theorem step_globals (p : Program) (c : Context) :
    (step p c).1.memory.globals = Patch.applyAll (c.patches p) c.memory.globals := by
  have h : step p (c.on c.memory.globals) = _ := step_on rfl fun _ _ => rfl
  exact congrArg (fun r : Context × Except Fault Control => r.1.memory.globals) h

/-- The last step of a run. -/
theorem run_succ_of_ends (limit : Nat) {d : Context} {r : Except Fault Control}
    (hs : step p c = (d, r)) (hr : ∀ k, r = .ok k → k = .halt) :
    history p (limit + 1) c = [⟨c, d, r⟩] ∧
      ∃ ending, ∀ c' d', step p c' = (d', r) → run p (limit + 1) c' = (d', ending) := by
  rw [history, hs]
  cases r with
  | error f => exact ⟨rfl, .failed f, fun c' d' hs' => by rw [run, hs']⟩
  | ok k =>
    obtain rfl := hr k rfl
    exact ⟨rfl, .halted, fun c' d' hs' => by rw [run, hs']⟩

/-- A run that loads from no buffer of the set does the same whatever is in these
buffers. -/
theorem run_on {limit : Nat} (h : AgreeOff S c.memory.globals gs)
    (hload : ∀ t ∈ history p limit c, ∀ n ∈ t.loaded p, n ∉ S) :
    run p limit (c.on gs) =
      (run p limit c).map (·.on (Patch.applyAll (patches p (history p limit c)) gs)) id := by
  induction limit generalizing c gs with
  | zero => rfl
  | succ limit ih =>
    obtain ⟨d, r, hs⟩ : ∃ d r, step p c = (d, r) := ⟨_, _, rfl⟩
    have hon : (∀ n ∈ (c.reads p).filterMap View.global?, n ∉ S) →
        step p (c.on gs) = (d.on (Patch.applyAll (c.patches p) gs), r) := by
      intro hfirst
      rw [step_on h.shapes (h.agreesOn hfirst), hs]
      rfl
    by_cases hr : ∀ k, r = .ok k → k = .halt
    · obtain ⟨hhistory, ending, hrun⟩ := run_succ_of_ends limit hs hr
      rw [hhistory] at hload ⊢
      rw [hrun _ _ hs, hrun _ _ (hon (hload _ (List.mem_singleton_self _)))]
      simp only [patches, List.flatMap_cons, List.flatMap_nil, List.append_nil]
      rfl
    · obtain ⟨k, rfl, hk⟩ : ∃ k, r = .ok k ∧ k ≠ .halt := by
        simpa only [not_forall, exists_prop] using hr
      have hsteps : Steps p c (d.follow k) := ⟨d, k, hs, hk, rfl⟩
      rw [hsteps.history_succ] at hload ⊢
      have hsteps' : Steps p (c.on gs) ((d.follow k).on (Patch.applyAll (c.patches p) gs)) :=
        ⟨_, k, hon (hload _ List.mem_cons_self), hk, (Context.follow_on _ _ _).symm⟩
      have hglobals : (d.follow k).memory.globals =
          Patch.applyAll (c.patches p) c.memory.globals := by
        have hstep := step_globals p c
        rw [hs] at hstep
        cases k <;> exact hstep
      have hrest : AgreeOff S (d.follow k).memory.globals (Patch.applyAll (c.patches p) gs) := by
        rw [hglobals]
        exact h.applyAll _
      rw [run_succ_of_steps hsteps, run_succ_of_steps hsteps',
        ih hrest fun t ht => hload t (List.mem_cons_of_mem _ ht), ← Patch.applyAll_append]
      rfl

/-- What a run does to the buffers is the patches that its steps leave. -/
theorem run_globals (p : Program) (limit : Nat) (c : Context) :
    (run p limit c).1.memory.globals =
      Patch.applyAll (patches p (history p limit c)) c.memory.globals := by
  have h : run p limit (c.on c.memory.globals) = _ :=
    run_on (AgreeOff.refl (S := ∅) c.memory.globals) fun _ _ _ _ => id
  exact congrArg (fun r : Context × Ending => r.1.memory.globals) h

end

/-! ## Launches -/

/-- The steps at each grid point, up to the first that does not halt. -/
def histories (p : Program) (limit : Nat) (l : Launch) (bs : List Buffer) :
    List Point → List (List Moment)
  | [] => []
  | x :: r =>
    history p limit (.start x ⟨l.warp⟩ bs l.launchValues) ::
      match run p limit (.start x ⟨l.warp⟩ bs l.launchValues) with
      | (c, .halted) => histories p limit l c.memory.globals r
      | _ => []

namespace Engine

/-- Runs the program at some grid points in order, up to the first that does not
halt. -/
def runOrder (e : Engine) (limit : Nat) (l : Launch) (bs : List Buffer) :
    List Point → Engine × List Buffer × Ending
  | [] => (e, bs, .halted)
  | x :: r =>
    match e.runPoint limit l x bs with
    | (e, bs, .halted) => e.runOrder limit l bs r
    | stopped => stopped

/-- The steps of a launch. -/
def moments (e : Engine) (limit : Nat) (l : Launch) (bs : List Buffer) : List Moment :=
  (histories e.program limit l bs (Grid.points l.global)).flatten

/-- The buffers of the caller that a launch loads an element from. -/
def loaded (e : Engine) (limit : Nat) (l : Launch) (bs : List Buffer) : List Nat :=
  (e.moments limit l bs).flatMap (Moment.loaded e.program)

/-- The patches that a launch leaves. -/
def patches (e : Engine) (limit : Nat) (l : Launch) (bs : List Buffer) : List Patch :=
  Lockstep.patches e.program (e.moments limit l bs)

/-- The buffers of the caller that a launch stores an element to. -/
def stored (e : Engine) (limit : Nat) (l : Launch) (bs : List Buffer) : List Nat :=
  (e.patches limit l bs).map Patch.buffer

/-- A launch goes through all grid points in the order of enumeration. -/
theorem runPoints_eq (e : Engine) (limit : Nat) (l : Launch) (bs : List Buffer) (n count : Nat) :
    e.runPoints limit l bs n count =
      e.runOrder limit l bs ((List.range' n count).map (Grid.point l.global)) := by
  induction count generalizing e bs n with
  | zero => rfl
  | succ count ih =>
    rw [runPoints, List.range'_succ, List.map_cons, runOrder]
    obtain ⟨e', bs', ending⟩ := e.runPoint limit l (Grid.point l.global n) bs
    cases ending with
    | halted => exact ih e' bs' (n + 1)
    | _ => rfl

theorem launch_eq (e : Engine) (limit : Nat) (l : Launch) (bs : List Buffer) :
    e.launch limit l bs =
      (e.runOrder limit l bs (Grid.points l.global)).map
        (fun e' => { e' with status := if (e.runOrder limit l bs (Grid.points l.global)).2.2 = .halted
          then .completed else .error }) id := by
  rw [launch, runPoints_eq, ← List.range_eq_range']
  rfl

variable {e : Engine} {limit : Nat} {l : Launch} {S : Set Nat} {bs gs : List Buffer}

theorem runPoint_on {x : Point} (h : AgreeOff S bs gs)
    (hload : ∀ t ∈ history e.program limit (.start x ⟨l.warp⟩ bs l.launchValues),
      ∀ n ∈ t.loaded e.program, n ∉ S) :
    e.runPoint limit l x gs = ((e.runPoint limit l x bs).1,
      Patch.applyAll (Lockstep.patches e.program
        (history e.program limit (.start x ⟨l.warp⟩ bs l.launchValues))) gs,
      (e.runPoint limit l x bs).2.2) := by
  have hrun := run_on (c := .start x ⟨l.warp⟩ bs l.launchValues) h hload
  unfold runPoint
  rw [show (Context.start x ⟨l.warp⟩ gs l.launchValues) =
    (Context.start x ⟨l.warp⟩ bs l.launchValues).on gs from rfl, hrun]
  rfl

/-- Grid points that load from no buffer of the set do the same whatever is in
these buffers. -/
theorem runOrder_on {xs : List Point} (h : AgreeOff S bs gs)
    (hload : ∀ t ∈ (histories e.program limit l bs xs).flatten, ∀ n ∈ t.loaded e.program, n ∉ S) :
    e.runOrder limit l gs xs = ((e.runOrder limit l bs xs).1,
      Patch.applyAll (Lockstep.patches e.program (histories e.program limit l bs xs).flatten) gs,
      (e.runOrder limit l bs xs).2.2) := by
  induction xs generalizing e bs gs with
  | nil => rfl
  | cons x xs ih =>
    obtain ⟨c, ending, hrun⟩ : ∃ c ending,
        run e.program limit (.start x ⟨l.warp⟩ bs l.launchValues) = (c, ending) := ⟨_, _, rfl⟩
    have hpoint : e.runPoint limit l x bs =
        ({ e with
            iterations := e.iterations + 1
            instructions := e.instructions + c.instructions }, c.memory.globals, ending) := by
      rw [runPoint, hrun]
    rw [histories, hrun, List.flatten_cons] at hload ⊢
    have hon := runPoint_on h fun t ht => hload t (List.mem_append_left _ ht)
    rw [hpoint] at hon
    rw [runOrder, hon, runOrder, hpoint, Lockstep.patches_append, Patch.applyAll_append]
    cases ending with
    | halted =>
      refine ih ?_ fun t ht => hload t (List.mem_append_right _ ht)
      have hglobals := run_globals e.program limit (.start x ⟨l.warp⟩ bs l.launchValues)
      rw [hrun] at hglobals
      rw [hglobals]
      exact h.applyAll _
    | _ => rfl

/-- What a launch does to the buffers is the patches that it leaves. -/
theorem launch_on (h : AgreeOff S bs gs) (hload : ∀ n ∈ e.loaded limit l bs, n ∉ S) :
    e.launch limit l gs = ((e.launch limit l bs).1, Patch.applyAll (e.patches limit l bs) gs,
      (e.launch limit l bs).2.2) := by
  have horder := runOrder_on h fun t ht n hn => hload n (List.mem_flatMap.mpr ⟨t, ht, hn⟩)
  rw [launch_eq, launch_eq, horder]
  rfl

theorem launch_globals (e : Engine) (limit : Nat) (l : Launch) (bs : List Buffer) :
    (e.launch limit l bs).2.1 = Patch.applyAll (e.patches limit l bs) bs := by
  have h : e.launch limit l bs = _ := launch_on (AgreeOff.refl (S := ∅) bs) fun _ _ => id
  exact congrArg (·.2.1) h

/-- `copy` on a grid of two points. -/
def copyLaunch : Launch := ⟨⟨2, 1, 1⟩, ⟨1, 1, 1⟩, [], false⟩

/-- The buffers of `copy`: one to copy to and one to copy from. -/
def copyBuffers (out : Array UInt8) : List Buffer :=
  [⟨.int .int8, out⟩, ⟨.int .int8, #[5, 7]⟩]

end Engine

end Lockstep
