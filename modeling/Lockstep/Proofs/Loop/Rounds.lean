import Lockstep.Proofs.Loop.Body
import Lockstep.Proofs.Loop.Visit
import Mathlib.Tactic.IntervalCases

/-!
# Rounds of an integer loop

A properly nested integer loop from `s` to `t` goes `t - s` times through its
body, with `s`, `s + 1` and so on as its counter on every lane, and leaves for
the instruction after its end. The one thing that keeps it from doing so, if
nothing fails, is another loop in the body that never ends.
-/

namespace Lockstep

/-- The entries at a loop with which control went on into its body. -/
def bodyEntries (l : Nat) (ms : List Moment) : List (Option LaneValues) :=
  (ms.filter fun m => m.before.pc = l ∧ m.outcome = .ok .proceed).map
    fun m => m.after.values.get? l

/-- The counters of so many rounds that begin with `s`, each the same on every
lane. -/
def counters (T : IntType) (s : Int) (w : Warp) (k : Nat) : List (Option LaneValues) :=
  (List.range k).map fun j : Nat => some (.scalar (w.splat (Loop.counter T (s + j))))

/-- The body has no loop in it. -/
def Straight (p : Program) (l e : Nat) : Prop :=
  ∀ q, l < q → q < e → p.isLoopAt q = false

/-- The run goes `t - s` times through the body, and the visit after that takes
the counter away and goes on after the end of the loop. -/
def Completes (p : Program) (l e : Nat) (T : IntType) (s t : Int) (c : Context) : Prop :=
  ∃ n x y, Within p l e c n x ∧ x.pc = l ∧ step p x = (y, .ok (.jump (e + 1))) ∧
    y.values.contains l = false ∧
    bodyEntries l (history p (n + 1) c) = counters T s c.warp (t - s).toNat ∧
    (Straight p l e → y.instructions = c.instructions + ((t - s).toNat * (e - l - 1 + 2) + 1))

/-- The run enters the body with the counters of so many rounds and of one more, and never
comes to the end of that one. -/
def StaysIn (p : Program) (l e : Nat) (T : IntType) (s : Int) (c : Context) (k : Nat) : Prop :=
  ∃ n, ∀ m, n ≤ m → ∃ x, Within p l e c m x ∧ l < x.pc ∧ x.pc < e ∧
    bodyEntries l (history p m c) = counters T s c.warp (k + 1)

/-- The run enters the body with the counters of some of these rounds, and never
comes to the end of the last one. -/
def Stalls (p : Program) (l e : Nat) (T : IntType) (s t : Int) (c : Context) : Prop :=
  ∃ k, k < (t - s).toNat ∧ StaysIn p l e T s c k

/-! ## Entries of the body -/

section

variable {p : Program} {l b m : Nat} {x y : Context}

theorem bodyEntries_append (ms ms' : List Moment) :
    bodyEntries l (ms ++ ms') = bodyEntries l ms ++ bodyEntries l ms' := by
  rw [bodyEntries, List.filter_append, List.map_append]
  rfl

theorem bodyEntries_of_proceed (hpc : x.pc = l) (hs : step p x = (y, .ok .proceed)) :
    bodyEntries l [moment p x] = [y.values.get? l] := by
  simp [bodyEntries, moment, hs, hpc]

theorem bodyEntries_of_jump {q : Nat} (hs : step p x = (y, .ok (.jump q))) :
    bodyEntries l [moment p x] = [] := by
  simp [bodyEntries, moment, hs]

theorem bodyEntries_of_ne (hpc : x.pc ≠ l) : bodyEntries l [moment p x] = [] := by
  simp [bodyEntries, moment, hpc]

/-- Within the body it is not entered. -/
theorem Within.bodyEntries_eq (h : Within p (l + 1) b x m y) (hx : l < x.pc) :
    bodyEntries l (history p m x) = [] := by
  induction h with
  | start => rfl
  | @step m y z h hs ha hb ih =>
    have hne : y.pc ≠ l := by
      cases h with
      | start => omega
      | step h hs ha hb => omega
    rw [h.history_succ, bodyEntries_append, ih, bodyEntries_of_ne hne]
    rfl

theorem counters_succ (T : IntType) (s : Int) (w : Warp) (k : Nat) :
    counters T s w (k + 1) =
      counters T s w k ++ [some (.scalar (w.splat (Loop.counter T (s + k))))] := by
  rw [counters, List.range_succ, List.map_append]
  rfl

end

/-! ## Rounds -/

/-- The run has come to the loop after so many rounds, and so many instructions
since it first came there. -/
structure AtRound (p : Program) (l e : Nat) (T : IntType) (s : Int) (c : Context) (k n : Nat)
    (x : Context) : Prop where
  within : Within p l e c n x
  pc : x.pc = l
  first : k = 0 → x = c
  counter : ∀ j : Nat, k = j + 1 →
    x.values.get? l = some (.scalar (c.warp.splat (Loop.counter T (s + j))))
  recorded : 0 < k → x.loopEnds.get? l = some e
  entries : bodyEntries l (history p n c) = counters T s c.warp k
  length : Straight p l e → n = k * (e - l - 1 + 2)

section

variable {p : Program} {l e k n : Nat} {T : IntType} {s t : Int} {c x : Context}

theorem LoopEntry.atRound_zero (h : LoopEntry p l e T s t c) : AtRound p l e T s c 0 0 c where
  within := .start
  pc := h.pc
  first _ := rfl
  counter _ hk := absurd hk.symm (Nat.succ_ne_zero _)
  recorded hk := absurd hk (Nat.lt_irrefl 0)
  entries := rfl
  length _ := (Nat.zero_mul _).symm

theorem CountedLoop.atRound_zero (h : CountedLoop p l e T s t c) : AtRound p l e T s c 0 0 c :=
  h.entry.atRound_zero

/-- The counter of a round that is to come is in the widest type. -/
theorem CountedLoop.widest_contains (h : CountedLoop p l e T s t c) {j : Nat}
    (hj : s + j ≤ t) : T.widest.contains (s + j) = true := by
  have hs := IntType.contains_iff.mp (IntType.contains_widest h.inType)
  have ht := IntType.contains_iff.mp h.inWidest
  rw [IntType.contains_iff]
  omega

/-- One more on every lane. -/
theorem LoopEntry.increment_splat (h : LoopEntry p l e T s t c) {j : Nat}
    (hj : T.widest.contains (s + j + 1) = true) :
    (c.warp.splat (Loop.counter T (s + j))).mapM Loop.increment =
      .ok (c.warp.splat (Loop.counter T (s + j + 1))) := by
  have hmin := (IntType.contains_iff.mp h.inType).1
  exact mapM_replicate (Loop.increment_counter (by omega) hj) _

section

variable (hp : p.Accepted) (h : LoopEntry p l e T s t c) (ht : c.Typed) (hlanes : c.Lanewise)
variable (hx : AtRound p l e T s c k n x)

include hp h ht hlanes hx

/-- While the next counter is in the widest type and is not the end bound, the visit goes on
into the body with it. The first visit does not look at the end bound. -/
theorem AtRound.enters (hin : T.widest.contains (s + k) = true) (hne : k ≠ 0 → s + k ≠ t) :
    ∃ y, step p x = (y, .ok .proceed) ∧ y.pc = l ∧
      y.values.get? l = some (.scalar (c.warp.splat (Loop.counter T (s + k)))) := by
  obtain ⟨u, hu, hkind, hd⟩ := h.loop
  obtain ⟨ops, hg⟩ := h.gather hp ht hu hkind hx.within hx.pc
  have hu' : p.get? x.pc = some u := by rw [hx.pc, hu]
  have hwarp : x.warp = c.warp := hx.within.warp
  cases k with
  | zero =>
    obtain rfl : x = c := hx.first rfl
    obtain ⟨q, v, r, hq, hv, hint⟩ := operandInt?_eq_some hu h.start
    have hstart : Operand.firstLane x.pc ops 0 = .ok v := firstLane_of_gather hg hq hv
    have hconvert := Value.convert_of_contains hint h.inType
    have hfresh : x.values.get? x.pc = none := by rw [hx.pc, h.fresh]
    refine ⟨_, step_of_fires (.enter hu' hkind hd hg hfresh hstart hconvert), hx.pc, ?_⟩
    rw [Context.define_values]
    change (x.values.insert x.pc _).get? l = _
    rw [hx.pc, Table.get?_insert_self, Loop.counter, Int.natCast_zero, Int.add_zero,
      if_pos h.inType]
  | succ j =>
    rw [Int.natCast_succ, ← Int.add_assoc] at hin hne
    obtain ⟨q, v, r, hq, hv, hint⟩ := operandInt?_eq_some hu (h.stop n x hx.within hx.pc)
    have hstop : Operand.firstLane x.pc ops 1 = .ok v := firstLane_of_gather hg hq hv
    have hcounter := hx.counter j rfl
    rw [← hx.pc] at hcounter
    have hreached := reached_splat (T := T) (n := s + j + 1) (h.laneCount_pos hlanes) hint
    rw [beq_eq_false_iff_ne.mpr (hne (Nat.succ_ne_zero j))] at hreached
    refine ⟨_, step_of_fires (.again hu' hkind hd hg hcounter (h.increment_splat hin) hstop
      hreached), hx.pc, ?_⟩
    rw [Context.define_values]
    change (x.values.insert x.pc _).get? l = _
    rw [hx.pc, Table.get?_insert_self, Int.natCast_succ, Int.add_assoc]

end

variable (hp : p.Accepted) (h : CountedLoop p l e T s t c) (ht : c.Typed) (hlanes : c.Lanewise)
variable (hx : AtRound p l e T s c k n x)

include hp h ht hlanes hx

/-- The visit after the last round leaves the loop. -/
theorem AtRound.leaves (hk : k = (t - s).toNat) :
    ∃ y, step p x = (y, .ok (.jump (e + 1))) ∧ y.values.contains l = false ∧
      y.instructions = x.instructions + 1 := by
  obtain ⟨u, hu, hkind, hd⟩ := h.loop
  obtain ⟨ops, hg⟩ := h.entry.gather hp ht hu hkind hx.within hx.pc
  have hu' : p.get? x.pc = some u := by rw [hx.pc, hu]
  have hlt := h.lt
  obtain ⟨j, rfl⟩ : ∃ j, k = j + 1 := ⟨k - 1, by omega⟩
  have hj : T.widest.contains (s + j + 1) = true := by
    have hnext := h.widest_contains (j := j + 1) (by omega)
    rwa [Int.natCast_succ, ← Int.add_assoc] at hnext
  obtain ⟨q, v, r, hq, hv, hint⟩ := operandInt?_eq_some hu (h.stop n x hx.within hx.pc)
  have hstop : Operand.firstLane x.pc ops 1 = .ok v := firstLane_of_gather hg hq hv
  have hcounter := hx.counter j rfl
  have hrecorded := hx.recorded (Nat.succ_pos j)
  rw [← hx.pc] at hcounter hrecorded
  have hreached := reached_splat (T := T) (n := s + j + 1) (h.entry.laneCount_pos hlanes) hint
  have heq : (s + j + 1 == t) = true := by
    rw [beq_iff_eq]
    omega
  rw [heq] at hreached
  refine ⟨_, step_of_fires (.leave hu' hkind hd hg hcounter (h.entry.increment_splat hj) hstop
    hreached hrecorded), ?_, rfl⟩
  rw [Table.contains]
  change ((x.values.erase x.pc).get? l).isSome = false
  rw [hx.pc, Table.get?_erase_self]
  rfl

end

section

variable {p : Program} {l e k n : Nat} {T : IntType} {s t : Int} {c x : Context}
variable (hp : p.Accepted) (hn : p.ProperlyNested) (h : LoopEntry p l e T s t c)
variable (horderly : Orderly p c) (ht : c.Typed) (hlanes : c.Lanewise)

/-- In the body is a loop that does not count in integers. -/
def HasOtherLoop (p : Program) (l e : Nat) : Prop :=
  ∃ q, l < q ∧ q < e ∧ p.isLoopAt q = true ∧ ¬ p.CountsInts q

theorem countsInts_or_hasOtherLoop (p : Program) (l e : Nat) :
    (∀ q, l < q → q < e → p.CountsInts q) ∨ HasOtherLoop p l e := by
  by_cases hall : ∀ q, l < q → q < e → p.CountsInts q
  · exact .inl hall
  · right
    simp only [not_forall] at hall
    obtain ⟨q, hlo, hhi, hq⟩ := hall
    refine ⟨q, hlo, hhi, ?_, hq⟩
    by_contra hloop
    exact hq fun u hu hk => absurd (Program.isLoopAt_of_kind hu hk) hloop

/-- What follows an entry of the body adds nothing to the entries of the body
before its end. -/
theorem AtRound.entries_body (hx : AtRound p l e T s c k n x) {y z : Context} {m : Nat}
    (hs : step p x = (y, .ok .proceed))
    (hcounter : y.values.get? l = some (.scalar (c.warp.splat (Loop.counter T (s + k)))))
    (hy : Within p l e c (n + 1) (y.follow .proceed))
    (hz : Within p (l + 1) e (y.follow .proceed) m z) (hpc : y.pc = l) :
    bodyEntries l (history p (n + 1 + m) c) = counters T s c.warp (k + 1) := by
  have hlt : l < (y.follow .proceed).pc := by
    change l < y.pc + 1
    omega
  rw [hy.history_add, hx.within.history_succ, bodyEntries_append, bodyEntries_append, hx.entries,
    bodyEntries_of_proceed hx.pc hs, hz.bodyEntries_eq hlt, hcounter, List.append_nil,
    counters_succ]

include hp h in
/-- The end of the body leads to the next round. -/
theorem AtRound.next (hphi : p.PhisSpareLoops) (hx : AtRound p l e T s c k n x) {y z : Context}
    {m : Nat} (hs : step p x = (y, .ok .proceed)) (hpc : y.pc = l)
    (hcounter : y.values.get? l = some (.scalar (c.warp.splat (Loop.counter T (s + k)))))
    (hy : Within p l e c (n + 1) (y.follow .proceed))
    (hz : Within p (l + 1) e (y.follow .proceed) m z) (hze : z.pc = e) :
    ∃ x', AtRound p l e T s c (k + 1) (n + 1 + m + 1) x' := by
  have hle : l < e := hp.lt_of_endsLoop h.ends
  have hbody : (y.follow .proceed).pc = l + 1 := congrArg (· + 1) hpc
  have hloop : p.isLoopAt l = true := hp.isLoopAt_of_endsLoop h.ends
  have hzc : Within p l e c (n + 1 + m) z := hy.append (hz.mono (Nat.le_succ l) le_rfl)
  obtain ⟨x', hs', hpc', hvalues, hends⟩ := steps_back hp (hze ▸ h.ends : p.EndsLoop z.pc l)
  refine ⟨x', .step hzc hs' (by omega) (by omega), hpc', nofun, ?_, ?_, ?_, ?_⟩
  · intro j hj
    obtain rfl : k = j := Nat.succ.inj hj
    rw [hvalues, (hz.counter_eq hphi hloop (by omega)).2, Context.follow_values, hcounter]
  · intro _
    rw [hends, hze]
  · rw [hzc.history_succ, bodyEntries_append, bodyEntries_of_ne (by omega), List.append_nil]
    exact hx.entries_body hs hcounter hy hz hpc
  · intro hflat
    have hpcz := hz.pc_of_straight hp hphi h.ends hflat hbody
    have hlength := hx.length hflat
    have hm : m = e - l - 1 := by omega
    rw [Nat.succ_mul, ← hlength, hm]
    omega

include hp hn h horderly ht hlanes in
/-- Where the loop goes on, the run comes to it after one more round or stays in the body for
good. -/
theorem AtRound.step (hx : AtRound p l e T s c k n x) (hin : T.widest.contains (s + k) = true)
    (hne : k ≠ 0 → s + k ≠ t) :
    (∃ n' x', AtRound p l e T s c (k + 1) n' x') ∨
      (StaysIn p l e T s c k ∧ HasOtherLoop p l e) := by
  have hle : l < e := hp.lt_of_endsLoop h.ends
  have hspans : p.Spans l e := hp.spans_of_endsLoop h.ends
  obtain ⟨y, hs, hpc, hcounter⟩ := hx.enters hp h ht hlanes hin hne
  have hbody : (y.follow .proceed).pc = l + 1 := congrArg (· + 1) hpc
  have hy : Within p l e c (n + 1) (y.follow .proceed) :=
    .step hx.within ⟨y, .proceed, hs, nofun, rfl⟩ (by omega) (by omega)
  have hclean : ∀ m z, Within p (l + 1) e (y.follow .proceed) m z → ¬ Fails p z := by
    intro m z hz
    have hlt := (hz.bounds hbody.ge (by omega)).1
    exact h.clean _ z (hy.append (hz.mono (Nat.le_succ l) le_rfl)) hlt
  have hyo : Orderly p (y.follow .proceed) := hy.orderly hn.phis horderly
  rcases countsInts_or_hasOtherLoop p l e with hints | hother
  · obtain ⟨m, z, hz, hze⟩ := body_ends hp hn hspans hyo hbody hclean hints
    exact .inl ⟨_, hx.next hp h hn.phis hs hpc hcounter hy hz hze⟩
  · rcases body_ends_or_stays hp hn hspans hyo hbody hclean with ⟨m, z, hz, hze⟩ | hstays
    · exact .inl ⟨_, hx.next hp h hn.phis hs hpc hcounter hy hz hze⟩
    · refine .inr ⟨⟨n + 1, ?_⟩, hother⟩
      intro m hm
      obtain ⟨z, hz, hlo, hhi⟩ := hstays (m - (n + 1))
      have hlen : n + 1 + (m - (n + 1)) = m := by omega
      have hentries := hx.entries_body hs hcounter hy hz hpc
      have hzc := hy.append (hz.mono (Nat.le_succ l) le_rfl)
      rw [hlen] at hentries hzc
      exact ⟨z, hzc, hlo, hhi, hentries⟩

end

section

variable {p : Program} {l e k n : Nat} {T : IntType} {s t : Int} {c x : Context}
variable (hp : p.Accepted) (hn : p.ProperlyNested) (h : CountedLoop p l e T s t c)
variable (horderly : Orderly p c) (ht : c.Typed) (hlanes : c.Lanewise)

include hp hn h horderly ht hlanes in
theorem AtRound.finishes (hx : AtRound p l e T s c k n x) {r : Nat}
    (hr : k + r = (t - s).toNat) :
    Completes p l e T s t c ∨ (Stalls p l e T s t c ∧ HasOtherLoop p l e) := by
  induction r generalizing k n x with
  | zero =>
    obtain rfl : k = (t - s).toNat := hr
    obtain ⟨y, hs, hgone, hcount⟩ := hx.leaves hp h ht hlanes rfl
    refine .inl ⟨n, x, y, hx.within, hx.pc, hs, hgone, ?_, ?_⟩
    · rw [hx.within.history_succ, bodyEntries_append, bodyEntries_of_jump hs, List.append_nil,
        hx.entries]
    · intro hflat
      rw [hcount, hx.within.instructions, hx.length hflat, Nat.add_assoc]
  | succ r ih =>
    have hin := h.widest_contains (j := k) (by omega)
    rcases hx.step hp hn h.entry horderly ht hlanes hin (fun _ => by omega) with
      ⟨n', x', hx'⟩ | ⟨hstays, hother⟩
    · exact ih hx' (by omega)
    · exact .inr ⟨⟨k, by omega, hstays⟩, hother⟩

end

/-- The iteration law. In a properly nested program, a run that enters an
integer loop from `s` to `t` goes through its body exactly `t - s` times, with
the counters `s`, `s + 1` and so on, and leaves it; or else it stays for good in
one of these rounds, which takes a loop in the body that does not count in
integers. -/
theorem completes_or_stalls {p : Program} {l e : Nat} {T : IntType} {s t : Int} {c : Context}
    {o : Option Nat} {point : Point} {warp : Warp} {buffers : List Buffer}
    {launchValues : List Value} (hp : p.validate = .ok ()) (hn : p.ProperlyNested)
    (hc : Arrives p (.start point warp buffers launchValues) o c)
    (h : CountedLoop p l e T s t c) :
    Completes p l e T s t c ∨
      (Stalls p l e T s t c ∧
        ∃ q, l < q ∧ q < e ∧ p.isLoopAt q = true ∧ ¬ p.CountsInts q) := by
  have hacc : p.Accepted := Program.accepted_of_validate hp
  have horderly : Orderly p c := hc.orderly hn.phis (orderly_start _ _ _ _)
  have ht : c.Typed := hc.typed (Context.typed_start _ _ _ _)
  have hlanes : c.Lanewise := hc.lanewise hacc (Context.lanewise_start _ _ _ _)
  exact h.atRound_zero.finishes hacc hn h horderly ht hlanes (Nat.zero_add _)

/-- A loop over 0 and 1 that doubles its counter in each round. -/
def Program.doubled : Program where
  uops :=
    [⟨.const, some (.scalar (.int .int32)), [], .literal (.int 0)⟩,
     ⟨.const, some (.scalar (.int .int32)), [], .literal (.int 2)⟩,
     ⟨.loop, some (.scalar (.int .int32)), [0, 1], .none⟩,
     ⟨.alu, some (.scalar (.int .int32)), [2, 2], .operation .add⟩,
     ⟨.endLoop, none, [2], .none⟩]

/-- The loop of `doubled` is left after seven instructions. -/
theorem lt_of_within_doubled {n : Nat} {x : Context}
    (h : Within .doubled 2 4 (run .doubled 2 (.start ⟨0, 0, 0⟩ ⟨⟨1, 1, 1⟩⟩ [] [])).1 n x) :
    n < 7 := by
  by_contra hn
  obtain ⟨m, rfl⟩ := Nat.exists_eq_add_of_le (Nat.le_of_not_lt hn)
  obtain ⟨y, hy⟩ := h.left
  have hbound := (hy.bounds (by decide) (by decide)).2
  rw [hy.eq_run] at hbound
  exact absurd hbound (by decide)

/-- There is no other loop in the body of this one, which has one instruction. -/
theorem completes_or_stalls_doubled : Straight .doubled 2 4 ∧
    Completes .doubled 2 4 .int32 0 2 (run .doubled 2 (.start ⟨0, 0, 0⟩ ⟨⟨1, 1, 1⟩⟩ [] [])).1 := by
  have hc := @arrives_of_unfinished .doubled (.start ⟨0, 0, 0⟩ ⟨⟨1, 1, 1⟩⟩ [] []) 1 (by decide)
  have hloop : CountedLoop .doubled 2 4 .int32 0 2
      (run .doubled 2 (.start ⟨0, 0, 0⟩ ⟨⟨1, 1, 1⟩⟩ [] [])).1 := by
    refine ⟨⟨_, rfl, rfl, rfl⟩, ⟨_, rfl, rfl, List.mem_singleton.mpr rfl⟩, rfl, rfl, rfl, by decide,
      by decide, by decide, ?_, ?_⟩
    · intro n x hx _
      have hn := lt_of_within_doubled hx
      rw [hx.eq_run]
      interval_cases n
      all_goals rfl
    · rintro n x hx - ⟨c', f, hf⟩
      have hn := lt_of_within_doubled hx
      rw [hx.eq_run] at hf
      have hok : ∃ k, (step .doubled
          (run .doubled n (run .doubled 2 (.start ⟨0, 0, 0⟩ ⟨⟨1, 1, 1⟩⟩ [] [])).1).1).2 =
            .ok k := by
        interval_cases n
        all_goals exact ⟨_, rfl⟩
      rw [hf] at hok
      obtain ⟨k, hk⟩ := hok
      cases hk
  have hstraight : Straight .doubled 2 4 := by
    intro q hlo hhi
    obtain rfl : q = 3 := by omega
    rfl
  rcases completes_or_stalls (by decide) (by decide) hc hloop with h | ⟨-, q, hlo, hhi, hq, -⟩
  · exact ⟨hstraight, h⟩
  · rw [hstraight q hlo hhi] at hq
    cases hq

/-! ## A round that never ends -/

/-- A loop over 0 and 1, and in it a loop that counts from a NaN. -/
def Program.endlessBody : Program where
  uops :=
    [⟨.const, some (.scalar (.int .int32)), [], .literal (.int 0)⟩,
     ⟨.const, some (.scalar (.int .int32)), [], .literal (.int 2)⟩,
     ⟨.const, some (.scalar (.float .float64)), [], .literal (.float .undefined)⟩,
     ⟨.loop, some (.scalar (.int .int32)), [0, 1], .none⟩,
     ⟨.loop, some (.scalar (.float .float64)), [2, 2], .none⟩,
     ⟨.endLoop, none, [4], .none⟩,
     ⟨.endLoop, none, [3], .none⟩]

/-- What the inner loop counts from and is to reach. -/
def notANumber : Operand := ⟨.scalar [.float .float64 .undefined], .scalar (.float .float64)⟩

/-- The run is in the inner loop, whose counter is a NaN once it has one. -/
structure Endless (x : Context) : Prop where
  warp : x.warp = ⟨⟨1, 1, 1⟩⟩
  value : x.values.get? 2 = some notANumber.values
  type : x.types.get? 2 = some notANumber.type
  place : (x.pc = 4 ∧ x.values.get? 4 = none) ∨
    ((x.pc = 4 ∨ x.pc = 5) ∧ x.values.get? 4 = some notANumber.values)

namespace Endless

variable {n : Nat} {c x y : Context}

theorem proceed (h : Endless x) (hpc : x.pc = 4) {v : LaneValues} (hv : v = notANumber.values) :
    Endless (((x.counted.declared (.scalar (.float .float64))).define v).follow .proceed) where
  warp := h.warp
  value := by
    change (x.values.insert x.pc v).get? 2 = _
    rw [hpc, Table.get?_insert_of_ne _ (by decide), h.value]
  type := by
    change (x.types.insert x.pc _).get? 2 = _
    rw [hpc, Table.get?_insert_of_ne _ (by decide), h.type]
  place := by
    refine .inr ⟨.inr (congrArg (· + 1) hpc), ?_⟩
    change (x.values.insert x.pc v).get? 4 = _
    rw [hpc, Table.get?_insert_self, hv]

/-- A NaN plus one is a NaN, and a NaN is never reached. -/
theorem steps (h : Endless x) : ∃ y, Steps .endlessBody x y ∧ Endless y := by
  have hget : ∀ q, x.pc = q → Program.endlessBody.get? x.pc = Program.endlessBody.get? q := by
    rintro q rfl
    rfl
  have hop : x.operand 2 = .ok notANumber := operand_eq_ok.mpr ⟨h.value, h.type⟩
  have hgather : ∀ u, Program.endlessBody.valueOperands u = [2, 2] →
      gather .endlessBody u x = .ok [notANumber, notANumber] := by
    intro u hu
    rw [gather, hu, mapM_eq_ok]
    exact .cons hop (.cons hop .nil)
  rcases h.place with ⟨hpc, hnone⟩ | ⟨hpc | hpc, hsome⟩
  · have hn : x.values.get? x.pc = none := by rw [hpc, hnone]
    have hfires := Fires.enter (hget 4 hpc) rfl rfl (hgather _ rfl) hn rfl rfl
    refine ⟨_, ⟨_, .proceed, step_of_fires hfires, nofun, rfl⟩, h.proceed hpc ?_⟩
    rw [h.warp]
    rfl
  · have hn : x.values.get? x.pc = some notANumber.values := by rw [hpc, hsome]
    have hfires := Fires.again (hget 4 hpc) rfl rfl (hgather _ rfl) hn rfl rfl rfl
    exact ⟨_, ⟨_, .proceed, step_of_fires hfires, nofun, rfl⟩, h.proceed hpc rfl⟩
  · have hfires := Fires.close (hget 5 hpc) rfl rfl
    exact ⟨_, ⟨_, .jump 4, step_of_fires hfires, nofun, rfl⟩, h.warp, h.value, h.type,
      .inr ⟨.inl rfl, hsome⟩⟩

theorem pc_ne (h : Endless x) : x.pc ≠ 3 := by
  rcases h.place with ⟨hpc, -⟩ | ⟨hpc | hpc, -⟩
  · rw [hpc]
    decide
  · rw [hpc]
    decide
  · rw [hpc]
    decide

/-- A run that has entered the body stays in the inner loop. -/
theorem of_within {d : Context} (hd : Steps .endlessBody c d) (h : Endless d)
    (hx : Within .endlessBody 3 6 c n x) : x = c ∨ Endless x := by
  induction hx with
  | start => exact .inl rfl
  | step hx hs ha hb ih =>
    rcases ih with rfl | ih
    · exact .inr (hs.det hd ▸ h)
    · obtain ⟨z, hz, hend⟩ := ih.steps
      exact .inr (hs.det hz ▸ hend)

end Endless

/-- Nothing here fails, and yet the outer loop does not go through its body
twice. -/
theorem not_completes_endlessBody : Program.endlessBody.validate = .ok () ∧
    Program.endlessBody.ProperlyNested ∧ ∃ o c,
      Arrives .endlessBody (.start ⟨0, 0, 0⟩ ⟨⟨1, 1, 1⟩⟩ [] []) o c ∧
        CountedLoop .endlessBody 3 6 .int32 0 2 c ∧ ¬ Completes .endlessBody 3 6 .int32 0 2 c := by
  have hc := @arrives_of_unfinished .endlessBody (.start ⟨0, 0, 0⟩ ⟨⟨1, 1, 1⟩⟩ [] []) 2 (by decide)
  obtain ⟨c, hrun⟩ : ∃ c, c = (run .endlessBody 3 (.start ⟨0, 0, 0⟩ ⟨⟨1, 1, 1⟩⟩ [] [])).1 := ⟨_, rfl⟩
  rw [← hrun] at hc
  have hsteps : Steps .endlessBody c (run .endlessBody 1 c).1 :=
    (steps_of_unfinished (n := 0) (by rw [hrun]; decide)).2
  have hentered : Endless (run .endlessBody 1 c).1 := by
    rw [hrun]
    exact ⟨rfl, rfl, rfl, .inl ⟨rfl, rfl⟩⟩
  refine ⟨by decide, by decide, _, c, hc, ?_, ?_⟩
  · refine ⟨⟨_, rfl, rfl, rfl⟩, ⟨_, rfl, rfl, List.mem_singleton.mpr rfl⟩, ?_, ?_, ?_, by decide,
      by decide, by decide, ?_, ?_⟩
    · rw [hrun]
      rfl
    · rw [hrun]
      rfl
    · rw [hrun]
      rfl
    · intro n x hx hpc
      rcases Endless.of_within hsteps hentered hx with rfl | hend
      · rw [hrun]
        rfl
      · exact absurd hpc hend.pc_ne
    · intro n x hx _
      rcases Endless.of_within hsteps hentered hx with rfl | hend
      · exact hsteps.not_fails
      · obtain ⟨y, hs, -⟩ := hend.steps
        exact hs.not_fails
  · rintro ⟨n, x, y, hx, hpc, hs, -⟩
    rcases Endless.of_within hsteps hentered hx with rfl | hend
    · have hproceed : (step .endlessBody x).2 = .ok .proceed := by
        rw [hrun]
        decide
      rw [hs] at hproceed
      cases hproceed
    · exact hend.pc_ne hpc

end Lockstep
