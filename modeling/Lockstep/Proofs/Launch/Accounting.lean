import Lockstep.Proofs.Launch.StoreOnly
import Lockstep.Proofs.Run.Ends
import Mathlib.Algebra.GroupWithZero.Nat
import Mathlib.Algebra.Order.BigOperators.Group.List
import Mathlib.Algebra.Order.Group.Nat

/-!
# The account of an engine

What a launch adds to the counts of its engine, in which buffers it ends and what it
leaves of its engine for the launches after it. The grid points are run one after the
other, each in a context of its own; all of them halt, or the first that fails is the
last that is run.
-/

namespace Lockstep

/-- The program is run at some grid points one after the other, each from a fresh
context on the buffers that the one before has left, and halts at each of them. The
numbers are the instructions executed at each. -/
inductive Sweep (p : Program) (l : Launch) :
    List Point → List Buffer → List Nat → List Buffer → Prop where
  | nil {bs : List Buffer} : Sweep p l [] bs [] bs
  | cons {x : Point} {xs : List Point} {bs bs' : List Buffer} {n : Nat} {ns : List Nat}
      {c : Context} (hx : Ends p (.start x ⟨l.warp⟩ bs l.launchValues) n c .halted)
      (hxs : Sweep p l xs c.memory.globals ns bs') : Sweep p l (x :: xs) bs (n :: ns) bs'

variable {p : Program} {l : Launch} {xs ys : List Point} {bs bs' bs₁ : List Buffer} {ns ms : List Nat}

namespace Sweep

theorem length_eq (h : Sweep p l xs bs ns bs') : ns.length = xs.length := by
  induction h with
  | nil => rfl
  | cons hx hxs ih => simp [ih]

theorem append (h : Sweep p l xs bs ns bs₁) (h' : Sweep p l ys bs₁ ms bs') :
    Sweep p l (xs ++ ys) bs (ns ++ ms) bs' := by
  induction h with
  | nil => exact h'
  | cons hx hxs ih => exact .cons hx (ih h')

/-- One more grid point at the end. -/
theorem concat {x : Point} {n : Nat} {c : Context} (h : Sweep p l xs bs ns bs₁)
    (hx : Ends p (.start x ⟨l.warp⟩ bs₁ l.launchValues) n c .halted) :
    Sweep p l (xs ++ [x]) bs (ns ++ [n]) c.memory.globals :=
  h.append (.cons hx .nil)

end Sweep

/-- A program halts at all of some grid points, or there is a first where it fails or
goes on for ever. -/
theorem sweep_or_stops (p : Program) (l : Launch) (xs : List Point) (bs : List Buffer) :
    (∃ ns bs', Sweep p l xs bs ns bs') ∨
    ∃ before x after ns bs₁, xs = before ++ x :: after ∧ Sweep p l before bs ns bs₁ ∧
      ((∃ n d f, Ends p (.start x ⟨l.warp⟩ bs₁ l.launchValues) n d (.failed f)) ∨
        ∀ limit, (run p limit (.start x ⟨l.warp⟩ bs₁ l.launchValues)).2 = .unfinished) := by
  induction xs generalizing bs with
  | nil => exact .inl ⟨[], bs, .nil⟩
  | cons x xs ih =>
    rcases ends_or_goes_on p (.start x ⟨l.warp⟩ bs l.launchValues) with ⟨n, d, r, hx⟩ | hon
    · cases r with
      | halted =>
        rcases ih d.memory.globals with
          ⟨ns, bs', hxs⟩ | ⟨before, y, after, ns, bs₁, rfl, hbefore, hy⟩
        · exact .inl ⟨n :: ns, bs', .cons hx hxs⟩
        · exact .inr ⟨x :: before, y, after, n :: ns, bs₁, rfl, .cons hx hbefore, hy⟩
      | failed f => exact .inr ⟨[], x, xs, [], bs, rfl, .nil, .inl ⟨n, d, f, hx⟩⟩
      | unfinished => exact absurd rfl hx.ne_unfinished
    · exact .inr ⟨[], x, xs, [], bs, rfl, .nil, .inr hon⟩

namespace Engine

/-- The engine with so many more grid points on its account, by the instructions
executed at each. -/
def charged (e : Engine) (ns : List Nat) : Engine :=
  { e with
    iterations := e.iterations + ns.length
    instructions := e.instructions + ns.sum }

variable {e e' : Engine} {limit n k : Nat} {x : Point} {d : Context} {r : Ending}

theorem charged_charged (e : Engine) (ns ms : List Nat) :
    (e.charged ns).charged ms = e.charged (ns ++ ms) := by
  simp [charged, Nat.add_assoc]

theorem runPoint_of_run
    (hrun : run e.program limit (.start x ⟨l.warp⟩ bs l.launchValues) = (d, r))
    (h : Ends e.program (.start x ⟨l.warp⟩ bs l.launchValues) n d r) :
    e.runPoint limit l x bs = (e.charged [n], d.memory.globals, r) := by
  have hcount : d.instructions = n := h.instructions.trans (Nat.zero_add n)
  simp [runPoint, hrun, charged, hcount]

theorem runPoint_of_ends (h : Ends e.program (.start x ⟨l.warp⟩ bs l.launchValues) n d r)
    (hlimit : n < limit) :
    e.runPoint limit l x bs = (e.charged [n], d.memory.globals, r) :=
  runPoint_of_run (h.run_eq hlimit) h

/-- Grid points that halt are put on the account before those that come after. -/
theorem runOrder_append (h : Sweep e.program l xs bs ns bs₁) (hlimit : ∀ n ∈ ns, n < limit)
    (ys : List Point) :
    e.runOrder limit l bs (xs ++ ys) = (e.charged ns).runOrder limit l bs₁ ys := by
  generalize hp : e.program = p at h
  induction h generalizing e with
  | nil => rfl
  | @cons x xs bs bs' n ns c hx hxs ih =>
    subst hp
    rw [List.cons_append, runOrder, runPoint_of_ends hx (hlimit n List.mem_cons_self)]
    have hrest := ih (e := e.charged [n]) (fun m hm => hlimit m (List.mem_cons_of_mem n hm)) rfl
    rw [charged_charged] at hrest
    exact hrest

theorem launch_of_sweep (h : Sweep e.program l (Grid.points l.global) bs ns bs')
    (hlimit : ∀ n ∈ ns, n < limit) :
    e.launch limit l bs = ({ e.charged ns with status := .completed }, bs', .halted) := by
  have horder := runOrder_append h hlimit []
  rw [List.append_nil] at horder
  rw [launch_eq, horder]
  rfl

theorem launch_of_fails {before after : List Point} {f : Fault}
    (hx : Grid.points l.global = before ++ x :: after) (h : Sweep e.program l before bs ns bs₁)
    (hf : Ends e.program (.start x ⟨l.warp⟩ bs₁ l.launchValues) n d (.failed f))
    (hlimit : ∀ m ∈ n :: ns, m < limit) :
    e.launch limit l bs =
      ({ e.charged (ns ++ [n]) with status := .error }, d.memory.globals, .failed f) := by
  have hbefore := runOrder_append h (fun m hm => hlimit m (List.mem_cons_of_mem n hm)) (x :: after)
  have hpoint : (e.charged ns).runPoint limit l x bs₁ = _ :=
    runPoint_of_ends hf (hlimit n List.mem_cons_self)
  rw [runOrder, hpoint, charged_charged] at hbefore
  rw [launch_eq, hx, hbefore]
  rfl

/-- What comes of running some grid points, if no run is cut off. -/
theorem runOrder_cases (hr : (e.runOrder limit l bs xs).2.2 ≠ .unfinished) :
    (∃ ns bs', Sweep e.program l xs bs ns bs' ∧
      e.runOrder limit l bs xs = (e.charged ns, bs', .halted)) ∨
    ∃ before x after ns bs₁ n d f, xs = before ++ x :: after ∧
      Sweep e.program l before bs ns bs₁ ∧
      Ends e.program (.start x ⟨l.warp⟩ bs₁ l.launchValues) n d (.failed f) ∧
      e.runOrder limit l bs xs = (e.charged (ns ++ [n]), d.memory.globals, .failed f) := by
  induction xs generalizing e bs with
  | nil => exact .inl ⟨[], bs, .nil, rfl⟩
  | cons x xs ih =>
    obtain ⟨c, ending, hrun⟩ : ∃ c ending,
        run e.program limit (.start x ⟨l.warp⟩ bs l.launchValues) = (c, ending) := ⟨_, _, rfl⟩
    cases ending with
    | halted =>
      obtain ⟨n, hx⟩ := ends_of_run hrun (by rintro ⟨⟩)
      rw [runOrder, runPoint_of_run hrun hx] at hr ⊢
      rcases ih hr with ⟨ns, bs', hxs, heq⟩ | ⟨before, y, after, ns, bs₁, m, d, f, rfl, hxs, hy, heq⟩
      · refine .inl ⟨n :: ns, bs', .cons hx hxs, ?_⟩
        exact heq.trans (by rw [charged_charged, List.singleton_append])
      · refine .inr ⟨x :: before, y, after, n :: ns, bs₁, m, d, f, rfl, .cons hx hxs, hy, ?_⟩
        exact heq.trans (by rw [charged_charged, List.singleton_append, List.cons_append])
    | failed f =>
      obtain ⟨n, hx⟩ := ends_of_run hrun (by rintro ⟨⟩)
      rw [runOrder, runPoint_of_run hrun hx]
      exact .inr ⟨[], x, xs, [], bs, n, c, f, rfl, .nil, hx, rfl⟩
    | unfinished =>
      rw [runOrder, runPoint, hrun] at hr
      exact absurd rfl hr

/-! ## Launches one after the other -/

/-- The launch comes to this end, given instructions enough at each grid point. -/
def Returns (e : Engine) (l : Launch) (bs : List Buffer) (out : Engine × List Buffer × Ending) :
    Prop :=
  out.2.2 ≠ .unfinished ∧ ∃ limit, e.launch limit l bs = out

/-- An engine of the program after so many launches, whatever they were and however
they ended. -/
inductive After (p : Program) : Nat → Engine → Prop where
  | created {e : Engine} (h : Engine.create p = .ok e) : After p 0 e
  | launched {k : Nat} {e : Engine} (h : After p k e) (limit : Nat) (l : Launch)
      (bs : List Buffer) : After p (k + 1) (e.launch limit l bs).1

theorem create_eq_ok (h : Engine.create p = .ok e) : e = ⟨p, .ready, 0, 0⟩ := by
  obtain ⟨-, -, rfl⟩ := map_eq_ok.mp h
  rfl

theorem runOrder_program (e : Engine) (limit : Nat) (l : Launch) (bs : List Buffer)
    (xs : List Point) : (e.runOrder limit l bs xs).1.program = e.program := by
  induction xs generalizing e bs with
  | nil => rfl
  | cons x xs ih =>
    rw [runOrder, runPoint]
    obtain ⟨c, ending⟩ := run e.program limit (.start x ⟨l.warp⟩ bs l.launchValues)
    cases ending with
    | halted => exact ih _ _
    | _ => rfl

theorem launch_program (e : Engine) (limit : Nat) (l : Launch) (bs : List Buffer) :
    (e.launch limit l bs).1.program = e.program := by
  rw [launch_eq]
  exact runOrder_program e limit l bs _

theorem launch_status (e : Engine) (limit : Nat) (l : Launch) (bs : List Buffer) :
    (e.launch limit l bs).1.status =
      if (e.launch limit l bs).2.2 = .halted then .completed else .error := by
  rw [launch_eq]
  rfl

namespace After

theorem program_eq (h : After p k e) : e.program = p := by
  induction h with
  | created h => rw [create_eq_ok h]
  | launched h limit l bs ih => rw [launch_program, ih]

/-- An engine is ready exactly until its first launch. -/
theorem ready_iff (h : After p k e) : e.status = .ready ↔ k = 0 := by
  cases h with
  | created h => simp [create_eq_ok h]
  | launched h limit l bs =>
    rw [launch_status]
    split <;> simp

end After

/-- A launch that comes to an end is accounted for in one of two ways. -/
theorem launch_cases (hr : (e.launch limit l bs).2.2 ≠ .unfinished) :
    (∃ ns bs', Sweep e.program l (Grid.points l.global) bs ns bs' ∧
      e.launch limit l bs = ({ e.charged ns with status := .completed }, bs', .halted)) ∨
    ∃ before x after ns bs₁ n d f, Grid.points l.global = before ++ x :: after ∧
      Sweep e.program l before bs ns bs₁ ∧
      Ends e.program (.start x ⟨l.warp⟩ bs₁ l.launchValues) n d (.failed f) ∧
      e.launch limit l bs =
        ({ e.charged (ns ++ [n]) with status := .error }, d.memory.globals, .failed f) := by
  rw [launch_eq] at hr ⊢
  rcases runOrder_cases hr with
    ⟨ns, bs', hsweep, heq⟩ | ⟨before, x, after, ns, bs₁, n, d, f, hx, hsweep, hf, heq⟩
  · exact .inl ⟨ns, bs', hsweep, by rw [heq]; rfl⟩
  · exact .inr ⟨before, x, after, ns, bs₁, n, d, f, hx, hsweep, hf, by rw [heq]; rfl⟩

/-- A launch that comes to an end comes to the same end at every higher limit. -/
theorem Returns.eventually {out : Engine × List Buffer × Ending} (h : e.Returns l bs out) :
    ∃ enough, ∀ limit, enough < limit → e.launch limit l bs = out := by
  obtain ⟨hr, limit, rfl⟩ := h
  -- no grid point needs more than all of them together
  have hmax : ∀ {ms : List Nat} {m limit : Nat}, m ∈ ms → ms.sum < limit → m < limit :=
    fun hm hlt => Nat.lt_of_le_of_lt (List.le_sum_of_mem hm) hlt
  rcases launch_cases hr with
    ⟨ns, bs', hsweep, heq⟩ | ⟨before, x, after, ns, bs₁, n, d, f, hx, hsweep, hf, heq⟩
  · exact ⟨ns.sum, fun limit hlt => by rw [heq, launch_of_sweep hsweep fun m hm => hmax hm hlt]⟩
  · exact ⟨(n :: ns).sum, fun limit hlt => by
      rw [heq, launch_of_fails hx hsweep hf fun m hm => hmax hm hlt]⟩

theorem Returns.unique {out out' : Engine × List Buffer × Ending} (h : e.Returns l bs out)
    (h' : e.Returns l bs out') : out = out' := by
  obtain ⟨enough, h⟩ := h.eventually
  obtain ⟨enough', h'⟩ := h'.eventually
  exact (h _ (Nat.lt_succ_of_le (Nat.le_max_left enough enough'))).symm.trans
    (h' _ (Nat.lt_succ_of_le (Nat.le_max_right enough enough')))

/-- A launch comes to one end, or there is a grid point where the program goes on for
ever. -/
theorem returns_or_goes_on (e : Engine) (l : Launch) (bs : List Buffer) :
    (∃! out, e.Returns l bs out) ∨
    ∃ before x after ns bs₁, Grid.points l.global = before ++ x :: after ∧
      Sweep e.program l before bs ns bs₁ ∧
      ∀ limit, (run e.program limit (.start x ⟨l.warp⟩ bs₁ l.launchValues)).2 = .unfinished := by
  have hunique : ∀ {out}, e.Returns l bs out → ∃! out, e.Returns l bs out :=
    fun h => ⟨_, h, fun _ h' => h'.unique h⟩
  rcases sweep_or_stops e.program l (Grid.points l.global) bs with
    ⟨ns, bs', h⟩ | ⟨before, x, after, ns, bs₁, hx, h, ⟨n, d, f, hf⟩ | hon⟩
  · refine .inl (hunique ⟨?_, ns.sum + 1, launch_of_sweep h ?_⟩)
    · rintro ⟨⟩
    · exact fun m hm => Nat.lt_succ_of_le (List.le_sum_of_mem hm)
  · refine .inl (hunique ⟨?_, (n :: ns).sum + 1, launch_of_fails hx h hf ?_⟩)
    · rintro ⟨⟩
    · exact fun m hm => Nat.lt_succ_of_le (List.le_sum_of_mem hm)
  · exact .inr ⟨before, x, after, ns, bs₁, hx, h, hon⟩

end Engine

end Lockstep
