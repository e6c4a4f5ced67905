import Lockstep.Proofs.Loop.Rounds

/-!
# Loops that start at their end bound or above it

A loop is left when its next counter is equal to the end bound, and the test comes after the
addition. A counter that starts at the bound or above it is beyond it at every visit, so the
loop is not left after one round, nor after any other: it counts up to the greatest integer
of the widest type and fails there.
-/

namespace Lockstep

theorem mapM_replicate_error {ε α β : Type} {f : α → Except ε β} {a : α} {e : ε}
    (h : f a = .error e) {n : Nat} (hn : 0 < n) : (List.replicate n a).mapM f = .error e := by
  obtain ⟨k, rfl⟩ := Nat.exists_eq_succ_of_ne_zero hn.ne'
  rw [List.replicate_succ, List.mapM_cons, h]
  rfl

namespace Loop

/-- What a loop fails with when there is no next counter. -/
def overflow (T : IntType) : Fault :=
  .overflow .add (.int T.widest) (some (.whole (T.widest.max + 1)))

theorem increment_counter_max (T : IntType) :
    increment (counter T T.widest.max) = .error (overflow T) := by
  have hwidest : T.widest.widest = T.widest := by cases T <;> rfl
  have hlarge : T.widest.contains (T.widest.max + 1) = false := by cases T <;> rfl
  have hwide : Wide.contains (T.widest.max + 1) = true := by cases T <;> rfl
  have hsmall : T.contains (T.widest.max + 1) = false := by
    rw [Bool.eq_false_iff]
    intro h
    rw [IntType.contains_widest h] at hlarge
    cases hlarge
  unfold counter
  split
  · rw [increment_int, Alu.fit, if_neg (by simp [hsmall]), if_neg (by simp [hlarge]), if_pos hwide]
    rfl
  · rw [increment_int, Alu.fit, hwidest, if_neg (by simp [hlarge]), if_neg (by simp [hlarge]),
      if_pos hwide]
    rfl

end Loop

/-- The run goes once through the body, with `s` as its counter, and the visit after that
takes the counter away and goes on after the end of the loop. -/
def RunsOnce (p : Program) (l e : Nat) (T : IntType) (s : Int) (c : Context) : Prop :=
  ∃ n x y, Within p l e c n x ∧ x.pc = l ∧ step p x = (y, .ok (.jump (e + 1))) ∧
    y.values.contains l = false ∧
    bodyEntries l (history p (n + 1) c) = counters T s c.warp 1

/-- The run goes through the body with every counter from `s` to the greatest integer of the
widest type, and the visit after that fails. -/
def Overruns (p : Program) (l e : Nat) (T : IntType) (s : Int) (c : Context) : Prop :=
  ∃ n x y, Within p l e c n x ∧ x.pc = l ∧ step p x = (y, .error (Loop.overflow T)) ∧
    bodyEntries l (history p (n + 1) c) = counters T s c.warp (T.widest.max + 1 - s).toNat ∧
    (Straight p l e → y.instructions =
      c.instructions + ((T.widest.max + 1 - s).toNat * (e - l - 1 + 2) + 1))

section

variable {p : Program} {l e k n m : Nat} {T : IntType} {s t : Int} {c x y : Context}

theorem bodyEntries_of_error {f : Fault} (hs : step p x = (y, .error f)) :
    bodyEntries l [moment p x] = [] := by
  simp [bodyEntries, moment, hs]

/-- A longer stretch goes on from where a shorter one ends. -/
theorem Within.exists_steps {a b : Nat} (h : Within p a b c n x) (h' : Within p a b c m y)
    (hlt : n < m) : ∃ z, Steps p x z ∧ z.pc ≤ b := by
  obtain ⟨d, rfl⟩ := Nat.exists_eq_add_of_lt hlt
  rw [Nat.add_right_comm] at h'
  obtain ⟨z, hz⟩ := h'.left
  cases hz with
  | step hx hs ha hb =>
    rw [hx.eq_run, ← h.eq_run] at hs
    exact ⟨z, hs, hb⟩

/-- A counter from the start on is in the widest type up to the greatest integer. -/
theorem LoopEntry.widest_contains (h : LoopEntry p l e T s t c) (hk : s + k ≤ T.widest.max) :
    T.widest.contains (s + k) = true := by
  have hs := IntType.contains_iff.mp (IntType.contains_widest h.inType)
  rw [IntType.contains_iff]
  omega

theorem LoopEntry.le_max (h : LoopEntry p l e T s t c) : s ≤ T.widest.max :=
  (IntType.contains_iff.mp (IntType.contains_widest h.inType)).2

variable (hp : p.Accepted) (hn : p.ProperlyNested) (h : LoopEntry p l e T s t c)
variable (horderly : Orderly p c) (ht : c.Typed) (hlanes : c.Lanewise)
variable (hx : AtRound p l e T s c k n x)

include hp h ht hlanes hx in
/-- The visit after the round with the greatest integer fails. -/
theorem LoopEntry.overflows (hk : k = (T.widest.max + 1 - s).toNat) :
    ∃ y, step p x = (y, .error (Loop.overflow T)) ∧ y.instructions = x.instructions + 1 := by
  have hle := h.le_max
  obtain ⟨u, hu, hkind, hd⟩ := h.loop
  obtain ⟨ops, hg⟩ := h.gather hp ht hu hkind hx.within hx.pc
  have hu' : p.get? x.pc = some u := by rw [hx.pc, hu]
  obtain ⟨j, rfl⟩ : ∃ j, k = j + 1 := ⟨k - 1, by omega⟩
  have hlast : s + j = T.widest.max := by omega
  have hcounter := hx.counter j rfl
  rw [← hx.pc, hlast] at hcounter
  have hadvance : Loop.advance x.pc (c.warp.splat (Loop.counter T T.widest.max)) ops =
      .error (Loop.overflow T) := by
    rw [Loop.advance, Warp.splat, mapM_replicate_error (Loop.increment_counter_max T)
      (h.laneCount_pos hlanes)]
    rfl
  refine ⟨x.counted.declared (.scalar (.int T)), ?_, rfl⟩
  rw [step_of_loop hu' hkind hd hg, Loop.visit]
  simp only [Context.declared_values, Context.counted_values, Context.declared_pc,
    Context.counted_pc, hcounter, hadvance]

include hp hn h horderly ht hlanes in
theorem AtRound.overruns (hle : t ≤ s) (hx : AtRound p l e T s c k n x) {r : Nat}
    (hr : k + r = (T.widest.max + 1 - s).toNat) :
    Overruns p l e T s c ∨
      (Stalls p l e T s (T.widest.max + 1) c ∧ HasOtherLoop p l e) := by
  have hmax := h.le_max
  induction r generalizing k n x with
  | zero =>
    obtain rfl : k = (T.widest.max + 1 - s).toNat := hr
    obtain ⟨y, hs, hcount⟩ := h.overflows hp ht hlanes hx rfl
    refine .inl ⟨n, x, y, hx.within, hx.pc, hs, ?_, ?_⟩
    · rw [hx.within.history_succ, bodyEntries_append, bodyEntries_of_error hs, List.append_nil,
        hx.entries]
    · intro hflat
      rw [hcount, hx.within.instructions, hx.length hflat, Nat.add_assoc]
  | succ r ih =>
    have hin := h.widest_contains (k := k) (by omega)
    rcases hx.step hp hn h horderly ht hlanes hin (fun _ => by omega) with
      ⟨n', x', hx'⟩ | ⟨hstays, hother⟩
    · exact ih hx' (by omega)
    · exact .inr ⟨⟨k, by omega, hstays⟩, hother⟩

/-- A loop that fails has not been left before. -/
theorem Overruns.not_runsOnce (h : Overruns p l e T s c) : ¬ RunsOnce p l e T s c := by
  rintro ⟨n, x, y, hx, -, hs, -, -⟩
  obtain ⟨n', x', y', hx', -, hs', -⟩ := h
  have hleaves : Steps p x (y.follow (.jump (e + 1))) := steps_of_jump hs
  rcases Nat.lt_trichotomy n n' with hlt | rfl | hlt
  · obtain ⟨z, hz, hle⟩ := hx.exists_steps hx' hlt
    obtain rfl := hz.det hleaves
    exact Nat.not_succ_le_self e hle
  · obtain rfl : x = x' := hx.eq_run.trans hx'.eq_run.symm
    cases hs.symm.trans hs'
  · obtain ⟨z, hz, -⟩ := hx'.exists_steps hx hlt
    exact hz.not_fails ⟨y', _, hs'⟩

/-- A loop that keeps to its body is never left. -/
theorem Stalls.not_runsOnce (h : Stalls p l e T s t c) : ¬ RunsOnce p l e T s c := by
  rintro ⟨n, x, y, hx, -, hs, -, -⟩
  obtain ⟨k, -, n', hstays⟩ := h
  obtain ⟨x', hx', -⟩ := hstays (n + n' + 1) (by omega)
  obtain ⟨z, hz, hle⟩ := hx.exists_steps hx' (by omega)
  obtain rfl := hz.det (steps_of_jump hs)
  exact Nat.not_succ_le_self e hle

end

/-- In a properly nested program, a run that enters an integer loop at its end bound or above
it goes through the body with every counter up to the greatest integer of the widest type and
then fails; or else it stays for good in one of these rounds, which takes a loop in the body
that does not count in integers. It never leaves the loop after one round. -/
theorem overruns_or_stalls {p : Program} {l e : Nat} {T : IntType} {s t : Int} {c : Context}
    {o : Option Nat} {point : Point} {warp : Warp} {buffers : List Buffer}
    {launchValues : List Value} (hp : p.validate = .ok ()) (hn : p.ProperlyNested)
    (hc : Arrives p (.start point warp buffers launchValues) o c)
    (h : LoopEntry p l e T s t c) (hle : t ≤ s) :
    (Overruns p l e T s c ∨
      (Stalls p l e T s (T.widest.max + 1) c ∧
        ∃ q, l < q ∧ q < e ∧ p.isLoopAt q = true ∧ ¬ p.CountsInts q)) ∧
    ¬ RunsOnce p l e T s c := by
  have hacc : p.Accepted := Program.accepted_of_validate hp
  have horderly : Orderly p c := hc.orderly hn.phis (orderly_start _ _ _ _)
  have ht : c.Typed := hc.typed (Context.typed_start _ _ _ _)
  have hlanes : c.Lanewise := hc.lanewise hacc (Context.lanewise_start _ _ _ _)
  have hends := h.atRound_zero.overruns hacc hn h horderly ht hlanes hle (Nat.zero_add _)
  refine ⟨hends, ?_⟩
  rcases hends with hoverruns | ⟨hstalls, -⟩
  · exact hoverruns.not_runsOnce
  · exact hstalls.not_runsOnce

/-! ## An empty range -/

/-- A loop from 3 to 3 with nothing in its body. -/
def Program.emptyRange : Program where
  uops :=
    [⟨.const, some (.scalar (.int .int32)), [], .literal (.int 3)⟩,
     ⟨.loop, some (.scalar (.int .int32)), [0, 0], .none⟩,
     ⟨.endLoop, none, [1], .none⟩]

/-- The context in which the loop of `emptyRange` is entered. -/
def emptyRangeEntry : Context := (run .emptyRange 1 (.start ⟨0, 0, 0⟩ ⟨⟨1, 1, 1⟩⟩ [] [])).1

theorem arrives_emptyRange : ∃ o,
    Arrives .emptyRange (.start ⟨0, 0, 0⟩ ⟨⟨1, 1, 1⟩⟩ [] []) o emptyRangeEntry :=
  ⟨_, @arrives_of_unfinished .emptyRange (.start ⟨0, 0, 0⟩ ⟨⟨1, 1, 1⟩⟩ [] []) 0 (by decide)⟩

/-- The bounds of the loop stay. -/
theorem Within.get?_emptyRange {n : Nat} {c x : Context} (h : Within .emptyRange 1 2 c n x)
    (hc : c.pc = 1) : x.values.get? 0 = c.values.get? 0 := by
  induction h with
  | start => rfl
  | @step n x y h hs ha hb ih =>
    rw [← ih]
    obtain ⟨hlo, hhi⟩ := h.bounds hc.ge (by omega)
    have hpc : x.pc = 1 ∨ x.pc = 2 := by omega
    rcases hpc with hpc | hpc
    · exact hs.values_eq (u := ⟨.loop, some (.scalar (.int .int32)), [0, 0], .none⟩)
        (by rw [hpc]; rfl) (by simp [Program.Defines, hpc])
    · exact hs.values_eq (u := ⟨.endLoop, none, [1], .none⟩) (by rw [hpc]; rfl)
        (by simp [Program.Defines, hpc])

theorem loopEntry_emptyRange : LoopEntry .emptyRange 1 2 .int32 3 3 emptyRangeEntry where
  loop := ⟨_, rfl, rfl, rfl⟩
  ends := ⟨_, rfl, rfl, List.mem_singleton.mpr rfl⟩
  pc := rfl
  fresh := rfl
  start := rfl
  inType := by decide
  stop := by
    intro n x hx hpc
    have hvalue := hx.get?_emptyRange rfl
    change (x.values.get? 0).bind (fun v => v.scalar?.bind fun lanes =>
      lanes.head?.bind Value.toInt?) = some 3
    rw [hvalue]
    rfl
  clean := by
    intro n x hx hlt
    obtain ⟨-, hhi⟩ := hx.bounds le_rfl (by decide)
    have hends : Program.EndsLoop .emptyRange x.pc 1 := by
      obtain hpc : x.pc = 2 := by omega
      rw [hpc]
      exact ⟨_, rfl, rfl, List.mem_singleton.mpr rfl⟩
    obtain ⟨y, hs, -⟩ := steps_back (Program.accepted_of_validate (by decide)) hends
    exact hs.not_fails

/-- The body runs with 3, 4 and so on up to the greatest 64-bit integer. -/
theorem overruns_emptyRange : Overruns .emptyRange 1 2 .int32 3 emptyRangeEntry := by
  obtain ⟨o, hc⟩ := arrives_emptyRange
  obtain ⟨hends, -⟩ :=
    overruns_or_stalls (by decide) (by decide) hc loopEntry_emptyRange (le_refl 3)
  rcases hends with h | ⟨-, q, hlo, hhi, -⟩
  · exact h
  · omega

/-- Nothing here fails or changes the bounds, and yet the second visit does not leave the
loop. -/
theorem not_runsOnce_emptyRange : Program.emptyRange.validate = .ok () ∧
    Program.emptyRange.ProperlyNested ∧
    (∃ o, Arrives .emptyRange (.start ⟨0, 0, 0⟩ ⟨⟨1, 1, 1⟩⟩ [] []) o emptyRangeEntry) ∧
    LoopEntry .emptyRange 1 2 .int32 3 3 emptyRangeEntry ∧
    ¬ RunsOnce .emptyRange 1 2 .int32 3 emptyRangeEntry := by
  refine ⟨by decide, by decide, arrives_emptyRange, loopEntry_emptyRange, ?_⟩
  rintro ⟨n, x, y, hx, hpc, hs, -, hentries⟩
  rcases Nat.lt_or_ge n 3 with hlt | hle
  · rw [hx.eq_run] at hpc hs
    interval_cases n
    · cases hs
    · cases hpc
    · cases hs
  · -- the first two visits have entered the body
    obtain ⟨m, rfl⟩ := Nat.exists_eq_add_of_le hle
    obtain ⟨z, hz⟩ := hx.left
    rw [Nat.add_assoc, hz.history_add, bodyEntries_append] at hentries
    have hlength := congrArg List.length hentries
    have htwo : (bodyEntries 1 (history .emptyRange 3 emptyRangeEntry)).length = 2 := by decide
    rw [List.length_append, htwo] at hlength
    simp [counters] at hlength
    omega

end Lockstep
