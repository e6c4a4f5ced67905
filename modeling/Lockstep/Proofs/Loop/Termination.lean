import Lockstep.Proofs.Loop.Counter

/-!
# Integer loops come to an end

Every end of a loop is charged with the rounds its loop may still take. Going
back at an end lowers the charge of that end, and of no later one raises it;
going forward raises none. So the charges, those of later ends first, together
with the distance from the end of the program, fall lexicographically. `debt`
encodes them in one number, which bounds the length of a run.
-/

namespace Lockstep

/-! ## Charges in lexicographic order -/

namespace Charges

/-- The largest debt of `n` charges up to `m` each with a rest up to `r`. -/
def bound (m r : Nat) : Nat → Nat
  | 0 => r
  | n + 1 => m * (bound m r n + 1) + bound m r n

/-- The charges of `n` ends and a rest as one number. A charge outweighs all
earlier ones together with the rest. -/
def debt (m r : Nat) (w : Nat → Nat) (rest : Nat) : Nat → Nat
  | 0 => rest
  | n + 1 => w n * (bound m r n + 1) + debt m r w rest n

variable {m r rest rest' : Nat} {w w' : Nat → Nat}

theorem debt_le_bound (hw : ∀ e, w e ≤ m) (hrest : rest ≤ r) (n : Nat) :
    debt m r w rest n ≤ bound m r n := by
  induction n with
  | zero => exact hrest
  | succ n ih => exact Nat.add_le_add (Nat.mul_le_mul_right _ (hw n)) ih

/-- No charge rises, and the rest falls. -/
theorem debt_lt_of_rest {n : Nat} (hw : ∀ e < n, w' e ≤ w e) (hrest : rest' < rest) :
    debt m r w' rest' n < debt m r w rest n := by
  induction n with
  | zero => exact hrest
  | succ n ih =>
    have hn := Nat.mul_le_mul_right (bound m r n + 1) (hw n (Nat.lt_succ_self n))
    exact Nat.add_lt_add_of_le_of_lt hn (ih fun e he => hw e (Nat.lt_succ_of_lt he))

/-- One charge falls, and no later one rises. -/
theorem debt_lt_of_charge {n e : Nat} (hbound : ∀ e, w' e ≤ m) (hrest : rest' ≤ r) (he : e < n)
    (hlt : w' e < w e) (hle : ∀ e', e < e' → e' < n → w' e' ≤ w e') :
    debt m r w' rest' n < debt m r w rest n := by
  induction n with
  | zero => exact absurd he (Nat.not_lt_zero e)
  | succ n ih =>
    rcases Nat.lt_succ_iff_lt_or_eq.mp he with he' | rfl
    · have hn := Nat.mul_le_mul_right (bound m r n + 1) (hle n he' (Nat.lt_succ_self n))
      exact Nat.add_lt_add_of_le_of_lt hn
        (ih he' fun e' h h' => hle e' h (Nat.lt_succ_of_lt h'))
    · have hlow := debt_le_bound hbound hrest (m := m) e
      calc w' e * (bound m r e + 1) + debt m r w' rest' e
          < w' e * (bound m r e + 1) + (bound m r e + 1) := by omega
        _ = (w' e + 1) * (bound m r e + 1) := by rw [Nat.succ_mul]
        _ ≤ w e * (bound m r e + 1) := Nat.mul_le_mul_right _ hlt
        _ ≤ w e * (bound m r e + 1) + debt m r w rest e := Nat.le_add_right _ _

end Charges

/-! ## The charge of an end -/

/-- An upper bound on the rounds a loop may still take with an entry at its
position. A counter never passes the widest integer types. -/
def remaining : Option LaneValues → Nat
  | none => 2 ^ 65 + 1
  | some (.scalar (.int _ i :: _)) => min (2 ^ 65) (2 ^ 64 - i).toNat
  | some _ => 0

/-- The rounds of the loop that ends at a position, twice, and one more while
control has to come back from there. An end that lies behind is free. -/
def charge (p : Program) (c : Context) (e : Nat) : Nat :=
  match p.endedAt e with
  | [] => 0
  | l :: _ =>
    if c.pc ≤ e then 2 * remaining (c.values.get? l) + (if c.pc = l then 0 else 1) else 0

/-- The largest charge. -/
def maxCharge : Nat := 2 * (2 ^ 65 + 1) + 1

/-- How far a run is from having passed the position `n`. -/
def debtTo (p : Program) (n : Nat) (c : Context) : Nat :=
  Charges.debt maxCharge n (charge p c) (n - c.pc) n

theorem remaining_le (v : Option LaneValues) : remaining v ≤ 2 ^ 65 + 1 := by
  unfold remaining
  split
  · exact le_rfl
  · omega
  · omega

theorem remaining_lt_of_some (v : LaneValues) : remaining (some v) < remaining none := by
  unfold remaining
  split
  · rename_i h
    cases h
  · omega
  · omega

variable {p : Program} {c d : Context}

theorem charge_le (e : Nat) : charge p c e ≤ maxCharge := by
  unfold charge maxCharge
  split
  · omega
  · rename_i l r hl
    have := remaining_le (c.values.get? l)
    split
    · split <;> omega
    · omega

theorem charge_ahead (hp : p.Accepted) {e l : Nat} (h : p.EndsLoop e l) (hpc : c.pc ≤ e) :
    charge p c e = 2 * remaining (c.values.get? l) + (if c.pc = l then 0 else 1) := by
  obtain ⟨u, hu, hk, hl⟩ := h
  obtain ⟨l', hl', -⟩ := hp.endLoop hu hk
  obtain rfl : l = l' := by rwa [hl', List.mem_singleton] at hl
  have hended : p.endedAt e = [l] := by
    rw [Program.endedAt, hu]
    exact (if_pos hk).trans hl'
  rw [charge, hended]
  exact if_pos hpc

theorem charge_eq_zero {e : Nat} (h : ∀ l, ¬ p.EndsLoop e l) : charge p c e = 0 := by
  unfold charge
  split
  · rfl
  · rename_i l r hl
    exact absurd (Program.endsLoop_iff_mem.mpr (by rw [hl]; exact List.mem_cons_self)) (h l)

theorem charge_behind {e : Nat} (h : e < c.pc) : charge p c e = 0 := by
  unfold charge
  split
  · rfl
  · rw [if_neg (by omega)]

/-- A round takes one from what remains. -/
theorem remaining_again {counter next : Lanes} {stop : Value}
    (hcounts : ∀ x ∈ counter, ∃ t i, x = .int t i)
    (hi : counter.mapM Loop.increment = .ok next) (hr : Loop.reached next stop = false) :
    remaining (some (.scalar next)) < remaining (some (.scalar counter)) := by
  cases counter with
  | nil =>
    cases hi
    cases hr
  | cons x r =>
    obtain ⟨t, i, rfl⟩ := hcounts x List.mem_cons_self
    obtain ⟨y, ys, hy, -, rfl⟩ := List.forall₂_cons_left_iff.mp (mapM_eq_ok.mp hi)
    obtain ⟨t', rfl, hrange⟩ := Loop.increment_eq_ok hy
    have := IntType.widest_bounds hrange
    dsimp only [remaining]
    omega

section

variable (hp : p.Accepted) (hunique : p.EndsUnique)

include hunique in
/-- When control goes on past a loop into its body, a round less remains. -/
theorem remaining_lt (hends : EndsKnown p c) (hcounts : CountsAt c c.pc) (hm : Moves p c d)
    {e : Nat} (he : p.EndsLoop e c.pc) (hloop : p.isLoopAt c.pc = true) (hde : d.pc ≤ e) :
    remaining (d.values.get? c.pc) < remaining (c.values.get? c.pc) := by
  cases hm with
  | on hu hk hk' hpc hends' hvalues =>
    exact absurd (Program.kind_of_isLoopAt hloop hu) hk
  | back he' hpc hends' hvalues => exact absurd rfl (he'.ne_of_isLoopAt hloop)
  | enter hu hk ht hg hn hv hw hpc hends' hvalues =>
    rw [hvalues, Table.get?_insert_self, hn]
    exact remaining_lt_of_some _
  | again hu hk hg hn hi hv hr hpc hends' hvalues =>
    obtain ⟨lanes, hlanes, hall⟩ := hcounts _ hn
    cases hlanes
    rw [hvalues, Table.get?_insert_self, hn]
    exact remaining_again hall hi hr
  | leave hu hk hg hn hi hv hr he' hpc hends' hvalues =>
    have := hunique _ _ _ he (hends _ _ he')
    omega

include hp hunique in
/-- Going forward raises no charge. -/
theorem charge_forward (hends : EndsKnown p c) (hcounts : p.isLoopAt c.pc = true → CountsAt c c.pc)
    (hm : Moves p c d) (hforward : c.pc < d.pc) (e : Nat) : charge p d e ≤ charge p c e := by
  by_cases hend : ∃ l, p.EndsLoop e l
  · obtain ⟨l, hl⟩ := hend
    by_cases hde : d.pc ≤ e
    · have hloop := hp.isLoopAt_of_endsLoop hl
      have hce : c.pc ≤ e := by omega
      rw [charge_ahead hp hl hde, charge_ahead hp hl hce]
      by_cases hne : l = c.pc
      · subst hne
        have := remaining_lt hunique hends (hcounts hloop) hm hl hloop hde
        split <;> omega
      · rw [hm.values_loop hloop hne, if_neg fun h : c.pc = l => hne h.symm]
        split <;> omega
    · rw [charge_behind (by omega)]
      exact Nat.zero_le _
  · have hnone : ∀ l, ¬ p.EndsLoop e l := fun l hl => hend ⟨l, hl⟩
    rw [charge_eq_zero hnone, charge_eq_zero hnone]

include hp in
/-- Going back from the end of a loop lowers the charge of that end, and raises
none after it. -/
theorem charge_back {l : Nat} (hl : p.EndsLoop c.pc l) (hpc : d.pc = l)
    (hvalues : d.values = c.values) :
    charge p d c.pc < charge p c c.pc ∧ ∀ e, c.pc < e → charge p d e ≤ charge p c e := by
  have hlt : l < c.pc := hp.lt_of_endsLoop hl
  constructor
  · have hde : d.pc ≤ c.pc := by omega
    rw [charge_ahead hp hl hde, charge_ahead hp hl le_rfl, hvalues, if_pos hpc, if_neg hlt.ne']
    omega
  · intro e he
    by_cases hend : ∃ l', p.EndsLoop e l'
    · obtain ⟨l', hl'⟩ := hend
      have hne : l' ≠ c.pc := hl.ne_of_isLoopAt (hp.isLoopAt_of_endsLoop hl')
      have hde : d.pc ≤ e := by omega
      rw [charge_ahead hp hl' hde, charge_ahead hp hl' he.le, hvalues,
        if_neg fun h : c.pc = l' => hne h.symm]
      split <;> omega
    · have hnone : ∀ l', ¬ p.EndsLoop e l' := fun l' hl' => hend ⟨l', hl'⟩
      rw [charge_eq_zero hnone, charge_eq_zero hnone]

theorem Moves.forward_or_back (hp : p.Accepted) (hends : EndsKnown p c) (hm : Moves p c d) :
    c.pc < d.pc ∨ ∃ l, p.EndsLoop c.pc l ∧ d.pc = l ∧ d.values = c.values := by
  cases hm with
  | on hu hk hk' hpc hends' hvalues => exact .inl (by omega)
  | @back l he hpc hends' hvalues => exact .inr ⟨l, he, hpc, hvalues⟩
  | enter hu hk ht hg hn hv hw hpc hends' hvalues => exact .inl (by omega)
  | again hu hk hg hn hi hv hr hpc hends' hvalues => exact .inl (by omega)
  | leave hu hk hg hn hi hv hr he hpc hends' hvalues =>
    have := hp.lt_of_endsLoop (hends _ _ he)
    exact .inl (by omega)

include hp hunique in
/-- Every instruction before a position lowers the debt up to there. -/
theorem debtTo_lt (hends : EndsKnown p c) (hcounts : p.isLoopAt c.pc = true → CountsAt c c.pc)
    (hm : Moves p c d) {n : Nat} (hn : c.pc < n) : debtTo p n d < debtTo p n c := by
  rcases hm.forward_or_back hp hends with hforward | ⟨l, hl, hpc, hvalues⟩
  · exact Charges.debt_lt_of_rest
      (fun e _ => charge_forward hp hunique hends hcounts hm hforward e) (by omega)
  · obtain ⟨hlt, hle⟩ := charge_back hp hl hpc hvalues
    exact Charges.debt_lt_of_charge charge_le (Nat.sub_le _ _) hn hlt fun e he _ => hle e he

end

theorem debtTo_le (n : Nat) : debtTo p n c ≤ Charges.bound maxCharge n n :=
  Charges.debt_le_bound charge_le (Nat.sub_le _ _) n

/-! ## Runs -/

/-- The ends on record are right, and loops of integer type count in integers. -/
structure Orderly (p : Program) (c : Context) : Prop where
  ends : EndsKnown p c
  counts : ∀ l, p.isLoopAt l = true → p.CountsInts l → CountsAt c l

theorem orderly_start (point : Point) (warp : Warp) (buffers : List Buffer)
    (launchValues : List Value) : Orderly p (.start point warp buffers launchValues) where
  ends l e h := by cases h
  counts l _ _ v h := by cases h

theorem Orderly.preserved (h : Orderly p c) (hm : Moves p c d) : Orderly p d where
  ends := h.ends.step hm
  counts l hl hints := (h.counts l hl hints).step hl hints hm

theorem Arrives.orderly (hphi : p.PhisSpareLoops) {c₀ : Context} {o : Option Nat}
    (h : Arrives p c₀ o c) (h₀ : Orderly p c₀) : Orderly p c := by
  induction h with
  | start => exact h₀
  | step h hs ih => exact ih.preserved (moves_of_steps hphi hs)

/-- A run with more steps to go than its debt is not cut off. -/
theorem run_of_debtTo_lt (hp : p.Accepted) (hints : ∀ l, p.CountsInts l)
    (hunique : p.EndsUnique) (hphi : p.PhisSpareLoops) {n : Nat} (h : Orderly p c)
    (hdebt : debtTo p p.length c < n) : (run p n c).2 ≠ .unfinished := by
  induction n generalizing c with
  | zero => exact absurd hdebt (Nat.not_lt_zero _)
  | succ n ih =>
    by_cases hpc : c.pc < p.length
    · rcases steps_or_fails hpc with ⟨d, hs⟩ | hf
      · have hm := moves_of_steps hphi hs
        have hlt := debtTo_lt hp hunique h.ends (fun hl => h.counts _ hl (hints _)) hm hpc
        rw [run_succ_of_steps hs]
        exact ih (h.preserved hm) (by omega)
      · obtain ⟨f, hend⟩ := run_succ_of_fails hf n
        simp [hend]
    · simp [run_succ_of_le_pc (Nat.le_of_not_lt hpc) n]

/-- When every loop counts in integers and has at most one end, and no loop is
the accumulator of a phi, every run halts or fails within a number of steps that
depends on the program alone. -/
theorem run_ends (hp : p.validate = .ok ()) (hints : ∀ l, p.CountsInts l)
    (hunique : p.EndsUnique) (hphi : p.PhisSpareLoops) :
    ∃ limit, ∀ point warp buffers launchValues n, limit ≤ n →
      (run p n (.start point warp buffers launchValues)).2 ≠ .unfinished := by
  refine ⟨Charges.bound maxCharge p.length p.length + 1, ?_⟩
  intro point warp buffers launchValues n hn
  have hdebt := @debtTo_le p (.start point warp buffers launchValues) p.length
  exact run_of_debtTo_lt (Program.accepted_of_validate hp) hints hunique hphi
    (orderly_start point warp buffers launchValues) (by omega)

theorem run_ends_twoRounds : ∃ limit, ∀ point warp buffers launchValues n, limit ≤ n →
    (run .twoRounds n (.start point warp buffers launchValues)).2 ≠ .unfinished := by
  refine run_ends (by decide) ?_ (by decide) (by decide)
  intro l u hu hk
  match l with
  | 0 => cases hu; cases hk
  | 1 => cases hu; cases hk
  | 2 => cases hu; exact ⟨.int32, rfl⟩
  | 3 => cases hu; cases hk
  | _ + 4 => cases hu

end Lockstep
