import Lockstep.Proofs.Loop.Termination
import Lockstep.Proofs.Run.Within

/-!
# The body of a properly nested loop

Control that is in the body of a loop stays there until it has reached the end.
It reaches the end if the loops in the body count in integers, and after as many
instructions as the body has if there are none.
-/

namespace Lockstep

variable {p : Program} {l e m : Nat} {x y : Context}

/-- The end of a loop goes back to the loop and is put on record. -/
theorem steps_back (hp : p.Accepted) (he : p.EndsLoop x.pc l) :
    ∃ y, Steps p x y ∧ y.pc = l ∧ y.values = x.values ∧ y.loopEnds.get? l = some x.pc := by
  obtain ⟨u, hu, hk, hl⟩ := he
  obtain ⟨l', hsrc, -⟩ := hp.endLoop hu hk
  obtain rfl : l = l' := by rwa [hsrc, List.mem_singleton] at hl
  exact ⟨_, ⟨_, .jump l, step_of_fires (.close hu hk hsrc), nofun, rfl⟩, rfl, rfl,
    Table.get?_insert_self _ _ _⟩

section

variable (hp : p.Accepted) (hn : p.ProperlyNested) (hl : p.Spans l e)

include hp hn hl in
/-- From inside the body an instruction leads to the body or to its end. -/
theorem body_confined (hends : EndsKnown p x) (hm : Moves p x y) (hlo : l < x.pc)
    (hhi : x.pc < e) : l < y.pc ∧ y.pc ≤ e := by
  cases hm with
  | on hu hk hk' hpc hends' hvalues => omega
  | @back l₀ he hpc hends' hvalues =>
    have hne : l ≠ l₀ := by
      rintro rfl
      have := hn.unique _ _ _ he hl.2
      omega
    have hlt := hp.lt_of_endsLoop he
    have := hn.strict hp hl (hp.spans_of_endsLoop he) hne
    omega
  | enter hu hk ht hg hnone hv hw hpc hends' hvalues => omega
  | again hu hk hg hsome hi hv hr hpc hends' hvalues => omega
  | leave hu hk hg hsome hi hv hr he hpc hends' hvalues =>
    have hend := hends _ _ he
    have hlt := hp.lt_of_endsLoop hend
    have := hn.strict hp hl (hp.spans_of_endsLoop hend) (by omega)
    omega

include hp hn hl in
theorem body_step (h : Orderly p x) (hlo : l < x.pc) (hhi : x.pc < e) (hclean : ¬ Fails p x) :
    ∃ y, Steps p x y ∧ Moves p x y ∧ l < y.pc ∧ y.pc ≤ e := by
  have hlen : e < p.length := hl.2.lt_length
  rcases steps_or_fails (show x.pc < p.length by omega) with ⟨y, hs⟩ | hfails
  · have hm := moves_of_steps hn.phis hs
    exact ⟨y, hs, hm, body_confined hp hn hl h.ends hm hlo hhi⟩
  · exact absurd hfails hclean

theorem Within.orderly (hphi : p.PhisSpareLoops) {a b : Nat} (h : Within p a b x m y)
    (hx : Orderly p x) : Orderly p y := by
  induction h with
  | start => exact hx
  | step h hs ha hb ih => exact ih.preserved (moves_of_steps hphi hs)

/-- In the body of a loop the counter of the loop stays as it is. -/
theorem Within.counter_eq (hphi : p.PhisSpareLoops) {b : Nat} (hloop : p.isLoopAt l = true)
    (h : Within p (l + 1) b x m y) (hx : l < x.pc) :
    l < y.pc ∧ y.values.get? l = x.values.get? l := by
  induction h with
  | start => exact ⟨hx, rfl⟩
  | @step m y z h hs ha hb ih =>
    refine ⟨ha, ?_⟩
    rw [(moves_of_steps hphi hs).values_loop hloop (Nat.ne_of_lt ih.1), ih.2]

variable (hx : Orderly p x) (hpc : x.pc = l + 1)
variable (hclean : ∀ m y, Within p (l + 1) e x m y → ¬ Fails p y)

include hp hn hl hx hpc hclean in
/-- A run through the body either reaches the end of the loop or goes on for ever
before it. -/
theorem body_ends_or_stays : (∃ m y, Within p (l + 1) e x m y ∧ y.pc = e) ∨
    ∀ m, ∃ y, Within p (l + 1) e x m y ∧ l < y.pc ∧ y.pc < e := by
  by_cases hend : ∃ m y, Within p (l + 1) e x m y ∧ y.pc = e
  · exact .inl hend
  · right
    have hle : l < e := hp.lt_of_endsLoop hl.2
    intro m
    induction m with
    | zero =>
      have hne : x.pc ≠ e := fun h => hend ⟨0, x, .start, h⟩
      exact ⟨x, .start, by omega, by omega⟩
    | succ m ih =>
      obtain ⟨y, hy, hlo, hhi⟩ := ih
      obtain ⟨z, hs, -, hlo', hhi'⟩ :=
        body_step hp hn hl (hy.orderly hn.phis hx) hlo hhi (hclean m y hy)
      have hz : Within p (l + 1) e x (m + 1) z := .step hy hs hlo' hhi'
      have hne : z.pc ≠ e := fun h => hend ⟨m + 1, z, hz, h⟩
      exact ⟨z, hz, hlo', by omega⟩

include hp hn hl hx hpc hclean in
/-- It does reach the end when the loops in the body count in integers: each
instruction on the way lowers the debt up to the end. -/
theorem body_ends (hints : ∀ q, l < q → q < e → p.CountsInts q) :
    ∃ m y, Within p (l + 1) e x m y ∧ y.pc = e := by
  by_contra hend
  have hle : l < e := hp.lt_of_endsLoop hl.2
  have hpaid : ∀ m, ∃ y, Within p (l + 1) e x m y ∧ l < y.pc ∧ y.pc < e ∧
      debtTo p e y + m ≤ debtTo p e x := by
    intro m
    induction m with
    | zero =>
      have hne : x.pc ≠ e := fun h => hend ⟨0, x, .start, h⟩
      exact ⟨x, .start, by omega, by omega, le_rfl⟩
    | succ m ih =>
      obtain ⟨y, hy, hlo, hhi, hdebt⟩ := ih
      have horderly := hy.orderly hn.phis hx
      obtain ⟨z, hs, hm, hlo', hhi'⟩ := body_step hp hn hl horderly hlo hhi (hclean m y hy)
      have hz : Within p (l + 1) e x (m + 1) z := .step hy hs hlo' hhi'
      have hne : z.pc ≠ e := fun h => hend ⟨m + 1, z, hz, h⟩
      have hlt := debtTo_lt hp hn.unique horderly.ends
        (fun hloop => horderly.counts _ hloop (hints _ hlo hhi)) hm hhi
      exact ⟨z, hz, hlo', by omega, by omega⟩
  obtain ⟨y, -, -, -, hdebt⟩ := hpaid (debtTo p e x + 1)
  omega

end

/-- Without loops in the body control goes from one instruction to the next. -/
theorem Within.pc_of_straight (hp : p.Accepted) (hphi : p.PhisSpareLoops) (he : p.EndsLoop e l)
    (hflat : ∀ q, l < q → q < e → p.isLoopAt q = false) (h : Within p (l + 1) e x m y)
    (hpc : x.pc = l + 1) : y.pc = l + 1 + m := by
  have hle : l < e := hp.lt_of_endsLoop he
  induction h with
  | start => exact hpc
  | @step m y z h hs ha hb ih =>
    have hbounds := h.bounds hpc.ge (by omega)
    have hnot : ∀ u, p.get? y.pc = some u → u.kind ≠ .loop := by
      intro u hu hk
      have hloop : p.isLoopAt y.pc = true := Program.isLoopAt_of_kind hu hk
      have hne : y.pc ≠ e := he.ne_of_isLoopAt hloop
      rw [hflat y.pc (by omega) (by omega)] at hloop
      cases hloop
    cases moves_of_steps hphi hs with
    | on hu hk hk' hpc' hends hvalues => omega
    | @back l₀ hback hpc' hends hvalues =>
      have hlt := hp.lt_of_endsLoop hback
      have hloop := hp.isLoopAt_of_endsLoop hback
      rw [hflat l₀ (by omega) (by omega)] at hloop
      cases hloop
    | enter hu hk ht hg hnone hv hw hpc' hends hvalues => exact absurd hk (hnot _ hu)
    | again hu hk hg hsome hi hv hr hpc' hends hvalues => exact absurd hk (hnot _ hu)
    | leave hu hk hg hsome hi hv hr he' hpc' hends hvalues => exact absurd hk (hnot _ hu)

end Lockstep
