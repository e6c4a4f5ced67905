import Lockstep.Proofs.Loop.Body
import Lockstep.Proofs.Loop.Reduction
import Lockstep.Proofs.Loop.Visit
import Lockstep.Proofs.Run.Values

/-!
# Reductions compute folds

A phi changes an entry from before the loop in place, and the entries of the body
hold on every pass what the pass before has left. The latter are overwritten before
they are read, so a pass does on each lane what its denotation says, and the
accumulator has at each visit of the loop the fold over the counters so far.
-/

namespace Lockstep

namespace Reduction

variable {r : Reduction} {p : Program} {s t : Int} {c x y : Context} {k : Nat}

/-! ## Rounds -/

section

variable (r p s c)

/-- What holds in the loop once so many passes are done: the accumulator has the
fold of the counters so far. -/
structure Rounds (k : Nat) (x : Context) : Prop where
  warp : x.warp = c.warp
  memory : x.memory = c.memory
  lanewise : x.Lanewise
  kept : ∀ q < r.loop, q ≠ r.acc → x.values.get? q = c.values.get? q
  lanes : ∀ j < c.warp.laneCount, ∃ a b, c.lane? j r.acc = some a ∧
    (Int.range s (s + k)).foldlM (r.pass? p c j) a = some b ∧ x.lane? j r.acc = some b

/-- The run is at the loop after so many passes. -/
structure AtLoop (k : Nat) (x : Context) : Prop where
  rounds : Rounds r p s c k x
  pc : x.pc = r.loop
  first : k = 0 → x.values.get? r.loop = none
  later : ∀ i, k = i + 1 →
    x.values.get? r.loop = some (.scalar (c.warp.splat (Loop.counter r.type (s + i)))) ∧
    x.loopEnds.get? r.loop = some r.last ∧ x.values.get? r.phi = x.values.get? r.acc

/-- The run is in the body, after so many passes and so many instructions of the
next one. -/
structure InBody (k i : Nat) (x : Context) : Prop where
  rounds : Rounds r p s c k x
  pc : x.pc = r.loop + 1 + i
  counter : x.values.get? r.loop = some (.scalar (c.warp.splat (Loop.counter r.type (s + k))))
  table : ∀ j < c.warp.laneCount, ∃ a t, x.lane? j r.acc = some a ∧
    r.body? p c.memory (r.table c j a (s + k)) i = some t ∧ ∀ q < x.pc, x.lane? j q = t q

/-- The phi has closed the last of so many passes. -/
structure AtLast (k : Nat) (x : Context) : Prop where
  rounds : Rounds r p s c (k + 1) x
  pc : x.pc = r.last
  counter : x.values.get? r.loop = some (.scalar (c.warp.splat (Loop.counter r.type (s + k))))
  carried : x.values.get? r.phi = x.values.get? r.acc

end

theorem Rounds.step (h : Rounds r p s c k x) (hp : p.Accepted) (hs : Steps p x y)
    (hmemory : y.memory = x.memory) (hvalues : ∀ q < r.loop, y.values.get? q = x.values.get? q)
    (hacc : r.acc < r.loop) : Rounds r p s c k y where
  warp := hs.warp.trans h.warp
  memory := hmemory.trans h.memory
  lanewise := hs.lanewise hp h.lanewise
  kept q hq hne := (hvalues q hq).trans (h.kept q hq hne)
  lanes j hj := by
    obtain ⟨a, b, ha, hfold, hb⟩ := h.lanes j hj
    refine ⟨a, b, ha, hfold, ?_⟩
    rw [Context.lane?, hvalues _ hacc]
    exact hb

theorem rounds_zero (hlanes : c.Lanewise) (hacc : c.values.get? r.acc ≠ none) :
    Rounds r p s c 0 c where
  warp := rfl
  memory := rfl
  lanewise := hlanes
  kept _ _ _ := rfl
  lanes j hj := by
    obtain ⟨v, hv⟩ := Option.ne_none_iff_exists'.mp hacc
    obtain ⟨a, ha⟩ := (hlanes _ v hv).lane? hj
    have hlane : c.lane? j r.acc = some a := by
      rw [Context.lane?, hv]
      exact ha
    refine ⟨a, a, hlane, ?_, hlane⟩
    simp [Int.range]

/-! ## Visits of the loop -/

/-- The bounds of the loop are as they were when it was entered. -/
theorem Rounds.firstLane (h : Rounds r p s c k x) (hr : r.In p) (hp : p.Accepted) {i : Nat}
    {n : Int} (hn : c.operandInt? p r.loop i = some n) {u : Uop} {ops : List Operand} {v : Value}
    (hu : p.get? r.loop = some u) (hg : gather p u x = .ok ops)
    (hv : Operand.firstLane x.pc ops i = .ok v) : v.toInt? = some n := by
  obtain ⟨q, w, l, hq, hw, hint⟩ := operandInt?_eq_some hu hn
  have hmem : q ∈ p.valueOperands u := List.mem_of_getElem? hq
  have hne : q ≠ r.acc := by
    obtain ⟨u', d, a, b, hu', -, -, -, hargs, ha, hb⟩ := hr.loop
    obtain rfl : u = u' := Option.some.inj (hu.symm.trans hu')
    rw [hargs] at hmem
    rcases List.mem_pair.mp hmem with rfl | rfl
    · exact ha
    · exact hb
  rw [← h.kept q (hp.of_mem_valueOperands hu hmem).1 hne] at hw
  have hfirst : Operand.firstLane x.pc ops i = .ok w := firstLane_of_gather hg hq hw
  rw [hv] at hfirst
  cases hfirst
  exact hint

/-- The body begins with all that was there before the loop. -/
theorem Rounds.inBody (h : Rounds r p s c k x) (hpc : x.pc = r.loop + 1)
    (hcounter : x.values.get? r.loop =
      some (.scalar (c.warp.splat (Loop.counter r.type (s + k))))) : InBody r p s c k 0 x := by
  refine ⟨h, hpc, hcounter, ?_⟩
  intro j hj
  obtain ⟨-, b, -, -, hb⟩ := h.lanes j hj
  refine ⟨b, r.table c j b (s + k), hb, rfl, ?_⟩
  intro q hq
  rw [table]
  by_cases hloop : q = r.loop
  · subst hloop
    rw [Function.update_self, Context.lane?, hcounter]
    simp [LaneValues.lane?, Warp.splat, hj]
  · rw [Function.update_of_ne hloop]
    by_cases hacc : q = r.acc
    · subst hacc
      rw [Function.update_self, hb]
    · rw [Function.update_of_ne hacc, Context.lane?, h.kept q (by omega) hacc]
      rfl

/-- Once the loop has a counter, this has counted all passes but one. -/
theorem AtLoop.counter_next (h : AtLoop r p s c k x) (hmin : r.type.min ≤ s)
    (hpos : 0 < c.warp.laneCount) {counter next : Lanes}
    (hcounter : x.values.get? x.pc = some (.scalar counter))
    (hi : counter.mapM Loop.increment = .ok next) :
    k ≠ 0 ∧ next = c.warp.splat (Loop.counter r.type (s + k)) := by
  rw [h.pc] at hcounter
  cases k with
  | zero =>
    rw [h.first rfl] at hcounter
    cases hcounter
  | succ i =>
    refine ⟨Nat.succ_ne_zero i, ?_⟩
    rw [(h.later i rfl).1] at hcounter
    cases hcounter
    obtain ⟨v, -, hv⟩ := ok_of_mapM hi (List.mem_replicate.mpr ⟨hpos.ne', rfl⟩)
    have hvalue := Loop.increment_counter_eq (by omega) hv
    rw [hvalue] at hv
    rw [Warp.splat, mapM_replicate hv] at hi
    cases hi
    rw [Int.natCast_succ, ← Int.add_assoc]
    rfl

section

variable (hr : r.In p) (hp : p.Accepted)
include hr hp

/-- A visit changes no entry but that of the loop. -/
theorem AtLoop.rounds_step (h : AtLoop r p s c k x) (hs : Steps p x y) :
    Rounds r p s c k y ∧ ∀ q ≠ r.loop, y.values.get? q = x.values.get? q := by
  obtain ⟨u, d, a, b, hu, hk, -⟩ := hr.loop
  rw [← h.pc] at hu
  have hother : ∀ q ≠ r.loop, y.values.get? q = x.values.get? q := by
    intro q hq
    refine hs.values_eq hu ?_
    rintro (rfl | ⟨hphi, -⟩)
    · exact hq h.pc
    · rw [hk] at hphi
      cases hphi
  refine ⟨h.rounds.step hp hs (hs.memory hu (by rw [hk]; rfl)) ?_ hr.acc_lt, hother⟩
  intro q hq
  exact hother q (Nat.ne_of_lt hq)

variable (hT : r.type.contains s = true) (hpos : 0 < c.warp.laneCount)
variable (hstart : c.operandInt? p r.loop 0 = some s)
variable (hstop : c.operandInt? p r.loop 1 = some t) (hst : s < t)
include hT hpos hstart hstop hst

/-- A visit of the loop after so many passes begins one more if there are counters
left, else it leaves the loop. -/
theorem AtLoop.step (h : AtLoop r p s c k x) (hs : Steps p x y) :
    (s + k ≠ t ∧ InBody r p s c k 0 y) ∨
      (s + k = t ∧ Rounds r p s c k y ∧ y.pc = r.last + 1 ∧
        y.values.get? r.phi = y.values.get? r.acc) := by
  obtain ⟨u, d, a, b, hu, hk, hd, hel, -⟩ := hr.loop
  have hat : ∀ {v}, p.get? x.pc = some v → v = u := by
    intro v hv
    rw [h.pc, hu] at hv
    exact (Option.some.inj hv).symm
  have hmin := (IntType.contains_iff.mp hT).1
  obtain ⟨hrounds, hother⟩ := h.rounds_step hr hp hs
  cases moves_of_steps (hr.phisSpareLoops hp) hs with
  | on hv hloop => exact absurd (hat hv ▸ hk) hloop
  | back he =>
    rw [h.pc] at he
    have hend := he.kind hu
    rw [hk] at hend
    cases hend
  | enter hv hloop ht hg hn hfirst hw hpc hends hvalues =>
    obtain rfl := hat hv
    obtain rfl := Option.some.inj (hd.symm.trans ht)
    rw [hel, Value.convert_of_contains (h.rounds.firstLane hr hp hstart hu hg hfirst) hT] at hw
    cases hw
    -- a loop without a counter has not been visited
    have hk : k = 0 := by
      by_contra hne
      obtain ⟨i, rfl⟩ := Nat.exists_eq_succ_of_ne_zero hne
      rw [h.pc, (h.later i rfl).1] at hn
      cases hn
    subst hk
    refine .inl ⟨by simpa using hst.ne, hrounds.inBody (by rw [hpc, h.pc]) ?_⟩
    rw [hvalues, h.pc, Table.get?_insert_self, h.rounds.warp]
    simp [Loop.counter, hT]
  | again hv hloop hg hn hi hfirst hreached hpc hends hvalues =>
    obtain rfl := hat hv
    obtain ⟨-, rfl⟩ := h.counter_next hmin hpos hn hi
    rw [reached_splat hpos (h.rounds.firstLane hr hp hstop hu hg hfirst)] at hreached
    refine .inl ⟨by simpa using hreached, hrounds.inBody (by rw [hpc, h.pc]) ?_⟩
    rw [hvalues, h.pc, Table.get?_insert_self]
  | leave hv hloop hg hn hi hfirst hreached he hpc hends hvalues =>
    obtain rfl := hat hv
    obtain ⟨hne, rfl⟩ := h.counter_next hmin hpos hn hi
    obtain ⟨i, rfl⟩ := Nat.exists_eq_succ_of_ne_zero hne
    obtain ⟨-, hlast, hcarried⟩ := h.later i rfl
    rw [reached_splat hpos (h.rounds.firstLane hr hp hstop hu hg hfirst)] at hreached
    rw [h.pc, hlast] at he
    cases he
    refine .inr ⟨by simpa using hreached, hrounds, hpc, ?_⟩
    have hacc := hr.acc_lt
    rw [hother _ (by rw [phi]; omega), hother _ (by omega), hcarried]

end

/-! ## Passes of the body -/

section

variable (hr : r.In p) (hp : p.Accepted)
include hr hp

/-- An instruction of the body does on each lane what the pass on this lane does
next. -/
theorem InBody.step {i : Nat} (h : InBody r p s c k i x) (hi : i < r.size) (hs : Steps p x y) :
    InBody r p s c k (i + 1) y := by
  have hlen : x.pc < p.length := by
    rw [h.pc, hr.length, last, phi]
    omega
  obtain ⟨u, hu⟩ : ∃ u, p.get? x.pc = some u := ⟨_, List.getElem?_eq_getElem hlen⟩
  have hk : u.ComputesByLane := hr.body i hi u (by rw [← h.pc]; exact hu)
  obtain ⟨hpc, hmemory, hvalues, hlanes⟩ := hs.onLane hp h.rounds.lanewise hu hk
  have hacc := hr.acc_lt
  have hxpc := h.pc
  refine ⟨?_, by omega, ?_, ?_⟩
  · refine h.rounds.step hp hs hmemory ?_ hacc
    intro q hq
    exact hvalues q (by omega)
  · rw [hvalues _ (by omega), h.counter]
  · intro j hj
    obtain ⟨a, t, ha, ht, htable⟩ := h.table j hj
    rw [← h.rounds.warp] at hj
    -- whatever the instruction reads is from before the loop or from this pass
    obtain ⟨t', ht', htable'⟩ := hlanes j hj t htable
    refine ⟨a, t', ?_, ?_, htable'⟩
    · rw [Context.lane?, hvalues _ (by omega)]
      exact ha
    · rw [body?_succ, ht, ← h.pc, ← h.rounds.memory]
      exact ht'

/-- The phi ends a pass: the accumulator has the fold of one more counter. -/
theorem InBody.close (h : InBody r p s c k r.size x) (hs : Steps p x y) :
    AtLast r p s c k y := by
  obtain ⟨u, hu, hk, hargs⟩ := hr.phi
  have hacc := hr.acc_lt
  have hxpc : x.pc = r.phi := h.pc
  have hphi : r.loop < r.phi := by
    rw [phi]
    omega
  have hnext : r.next < x.pc := by
    have hmem : r.next ∈ p.valueOperands u := by
      rw [hargs]
      exact List.mem_cons_of_mem _ List.mem_cons_self
    rw [hxpc]
    exact (hp.of_mem_valueOperands hu hmem).1
  rw [← hxpc] at hu
  obtain ⟨v, hv, hpc, hvalues⟩ := hs.carries hu hk hargs
  rw [hxpc] at hvalues
  have hother : ∀ q, q ≠ r.acc → q ≠ r.phi → y.values.get? q = x.values.get? q := by
    intro q hq hq'
    rw [hvalues, Table.get?_insert_of_ne _ hq', Table.get?_insert_of_ne _ hq]
  have hat : y.values.get? r.acc = some v := by
    rw [hvalues, Table.get?_insert_of_ne _ (by omega), Table.get?_insert_self]
  refine ⟨⟨hs.warp.trans h.rounds.warp, ?_, hs.lanewise hp h.rounds.lanewise, ?_, ?_⟩, ?_, ?_, ?_⟩
  · rw [hs.memory hu (by rw [hk]; rfl), h.rounds.memory]
  · intro q hq hne
    rw [hother q hne (by omega), h.rounds.kept q hq hne]
  · intro j hj
    obtain ⟨a, b, ha, hfold, hb⟩ := h.rounds.lanes j hj
    obtain ⟨b', t, hb', ht, htable⟩ := h.table j hj
    obtain rfl : b = b' := Option.some.inj (hb.symm.trans hb')
    rw [← h.rounds.warp] at hj
    -- what the phi carries on the lane is what the pass has made there
    obtain ⟨e, he⟩ := (h.rounds.lanewise _ v hv).lane? hj
    have hread : t r.next = some e := by
      rw [← htable _ hnext, Context.lane?, hv]
      exact he
    refine ⟨a, e, ha, ?_, ?_⟩
    · rw [range_succ, List.foldlM_append, hfold]
      simp [pass?, ht, hread]
    · rw [Context.lane?, hat]
      exact he
  · rw [hpc, hxpc, last]
  · rw [hother _ (by omega) (by omega), h.counter]
  · rw [hat, hvalues, Table.get?_insert_self]

/-- The end of the loop goes back to it. -/
theorem AtLast.step (h : AtLast r p s c k x) (hs : Steps p x y) :
    AtLoop r p s c (k + 1) y := by
  obtain ⟨u, hu, hk, hsrc⟩ := hr.last
  rw [← h.pc] at hu
  have hends : p.EndsLoop x.pc r.loop := Program.endsLoop_of_close hu hk hsrc
  obtain ⟨y', hs', hpc, hvalues, hrecord⟩ := steps_back hp hends
  obtain rfl := hs.det hs'
  refine ⟨?_, hpc, nofun, ?_⟩
  · refine h.rounds.step hp hs (hs.memory hu (by rw [hk]; rfl)) ?_ hr.acc_lt
    intro q hq
    rw [hvalues]
  · intro i hi
    obtain rfl : k = i := Nat.succ.inj hi
    rw [hvalues, hrecord, h.pc]
    exact ⟨h.counter, rfl, h.carried⟩

end

/-! ## The whole loop -/

/-- Where the run is in the loop, and how many instructions before its end. -/
inductive Phase (r : Reduction) (p : Program) (s t : Int) (c : Context) : Nat → Context → Prop
  | loop {k d : Nat} {x : Context} (h : AtLoop r p s c k x) (hd : s + k + d = t) :
      Phase r p s t c (d * (r.size + 3) + 1) x
  | body {k d i b : Nat} {x : Context} (h : InBody r p s c k i x) (hi : i + b = r.size)
      (hd : s + (k + 1) + d = t) : Phase r p s t c (d * (r.size + 3) + 3 + b) x
  | last {k d : Nat} {x : Context} (h : AtLast r p s c k x) (hd : s + (k + 1) + d = t) :
      Phase r p s t c (d * (r.size + 3) + 2) x
  | left {k : Nat} {x : Context} (h : Rounds r p s c k x) (hk : s + k = t)
      (hpc : x.pc = r.last + 1) (hcarried : x.values.get? r.phi = x.values.get? r.acc) :
      Phase r p s t c 0 x

theorem Phase.pc_lt (hr : r.In p) {n : Nat} (h : Phase r p s t c (n + 1) x) :
    x.pc < p.length := by
  have hlen := hr.length
  rw [Reduction.last, Reduction.phi] at hlen
  generalize hn : n + 1 = n' at h
  cases h with
  | loop h hd =>
    have hpc := h.pc
    omega
  | body h hi hd =>
    have hpc := h.pc
    omega
  | last h hd =>
    have hpc := h.pc
    rw [Reduction.last, Reduction.phi] at hpc
    omega
  | left h hk hpc hcarried => cases hn

section

variable (hr : r.In p) (hp : p.Accepted) (hT : r.type.contains s = true)
variable (hpos : 0 < c.warp.laneCount) (hstart : c.operandInt? p r.loop 0 = some s)
variable (hstop : c.operandInt? p r.loop 1 = some t) (hst : s < t)
include hr hp hT hpos hstart hstop hst

/-- Each instruction brings the run one closer to the end of the loop. -/
theorem Phase.step {n : Nat} (h : Phase r p s t c (n + 1) x) (hs : Steps p x y) :
    Phase r p s t c n y := by
  generalize hn : n + 1 = n' at h
  cases h with
  | @loop k d x h hd =>
    rcases h.step hr hp hT hpos hstart hstop hst hs with ⟨hne, hbody⟩ | ⟨heq, hrounds, hpc, hcar⟩
    · obtain ⟨d, rfl⟩ : ∃ e, d = e + 1 := ⟨d - 1, by omega⟩
      have hn : n = d * (r.size + 3) + 3 + r.size := by
        rw [Nat.succ_mul] at hn
        omega
      rw [hn]
      exact .body hbody (Nat.zero_add _) (by omega)
    · obtain rfl : d = 0 := by omega
      rw [Nat.zero_mul] at hn
      obtain rfl : n = 0 := by omega
      exact .left hrounds heq hpc hcar
  | @body k d i b x h hi hd =>
    cases b with
    | zero =>
      obtain rfl : i = r.size := hi
      obtain rfl : n = d * (r.size + 3) + 2 := by omega
      exact .last (h.close hr hp hs) hd
    | succ b =>
      obtain rfl : n = d * (r.size + 3) + 3 + b := by omega
      exact .body (h.step hr hp (by omega) hs) (by omega) hd
  | @last k d x h hd =>
    obtain rfl : n = d * (r.size + 3) + 1 := by omega
    exact .loop (h.step hr hp hs) (by omega)
  | left h hk hpc hcarried => cases hn

/-- From anywhere in the loop the run comes to an end, and if it does not fail the
loop has folded. -/
theorem Phase.run {n : Nat} (h : Phase r p s t c n x) :
    (Lockstep.run p (n + 1) x).2 ≠ .unfinished ∧
      ∀ m e, Lockstep.run p m x = (e, .halted) → r.Folds p s t c e := by
  induction n generalizing x with
  | zero =>
    generalize hn : 0 = n' at h
    cases h with
    | @left k x h hk hpc hcarried =>
      have hend : p.length ≤ x.pc := by
        rw [hpc, hr.length]
      refine ⟨by simp [run_succ_of_le_pc hend], ?_⟩
      intro m e hm
      cases m with
      | zero => cases hm
      | succ m =>
        rw [run_succ_of_le_pc hend] at hm
        cases hm
        refine ⟨?_, h.kept⟩
        intro j hj
        obtain ⟨a, b, ha, hfold, hb⟩ := h.lanes j hj
        rw [hk] at hfold
        refine ⟨a, b, ha, hfold, hb, ?_⟩
        rw [Context.lane?, hcarried]
        exact hb
    | _ => omega
  | succ n ih =>
    rcases steps_or_fails (h.pc_lt hr) with ⟨y, hs⟩ | hf
    · obtain ⟨hend, hfolds⟩ := ih (h.step hr hp hT hpos hstart hstop hst hs)
      rw [run_succ_of_steps hs]
      refine ⟨hend, ?_⟩
      intro m e hm
      cases m with
      | zero => cases hm
      | succ m =>
        rw [run_succ_of_steps hs] at hm
        exact hfolds m e hm
    · obtain ⟨hend, hhalt⟩ := run_of_fails hf
      exact ⟨hend _, fun m e hm => absurd hm (hhalt m e)⟩

end

/-- A loop that is entered starts with an integer of its type. -/
theorem inType_of_steps (hr : r.In p) (hp : p.Accepted) (hwf : c.ValuesWellFormed)
    (hpos : 0 < c.warp.laneCount) (h : AtLoop r p s c 0 c)
    (hstart : c.operandInt? p r.loop 0 = some s) (hs : Steps p c y) :
    r.type.contains s = true := by
  obtain ⟨u, d, a, b, hu, hk, hd, hel, -⟩ := hr.loop
  have hwf' := hs.valuesWellFormed hwf
  have hux : p.get? c.pc = some u := by rw [h.pc, hu]
  have hfresh : c.values.get? c.pc = none := by rw [h.pc, h.first rfl]
  cases moves_of_steps (hr.phisSpareLoops hp) hs with
  | enter hv hloop ht hg hn hfirst hw hpc hends hvalues =>
    obtain rfl := Option.some.inj (hux.symm.trans hv)
    obtain rfl := Option.some.inj (hd.symm.trans ht)
    rw [hel] at hw
    obtain rfl := Value.eq_of_convert (h.rounds.firstLane hr hp hstart hu hg hfirst) hw
    have hentry : y.values.get? c.pc = some (.scalar (c.warp.splat (.int r.type s))) := by
      rw [hvalues, Table.get?_insert_self]
    exact hwf'.entries _ _ hentry _ (List.mem_replicate.mpr ⟨hpos.ne', rfl⟩)
  | on hv hloop =>
    obtain rfl := Option.some.inj (hux.symm.trans hv)
    exact absurd hk hloop
  | back he =>
    have hend := he.kind hux
    rw [hk] at hend
    cases hend
  | again hv hloop hg hn => cases hfresh.symm.trans hn
  | leave hv hloop hg hn => cases hfresh.symm.trans hn

/-- From where the loop is entered the run comes to an end, and if it does not fail
the loop has folded. -/
theorem AtLoop.run (hr : r.In p) (hp : p.Accepted) (hwf : c.ValuesWellFormed)
    (hstart : c.operandInt? p r.loop 0 = some s) (hstop : c.operandInt? p r.loop 1 = some t)
    (hst : s < t) (h : AtLoop r p s c 0 c) :
    (∃ n, (Lockstep.run p n c).2 ≠ .unfinished) ∧
      ∀ m e, Lockstep.run p m c = (e, .halted) → r.Folds p s t c e := by
  obtain ⟨u, -, -, -, hu, -⟩ := hr.loop
  have hpos := laneCount_pos_of_operandInt? h.rounds.lanewise hu hstart
  by_cases hT : r.type.contains s = true
  · have hphase : Phase r p s t c ((t - s).toNat * (r.size + 3) + 1) c :=
      .loop h (by omega)
    obtain ⟨hend, hfolds⟩ := hphase.run hr hp hT hpos hstart hstop hst
    exact ⟨⟨_, hend⟩, hfolds⟩
  · have hlen : c.pc < p.length := by
      rw [h.pc]
      exact Program.get?_lt_length hu
    rcases steps_or_fails hlen with ⟨y, hs⟩ | hf
    · exact absurd (inType_of_steps hr hp hwf hpos h hstart hs) hT
    · obtain ⟨hend, hhalt⟩ := run_of_fails hf
      exact ⟨⟨1, hend 0⟩, fun m e hm => absurd hm (hhalt m e)⟩

end Reduction

/-- A reduction computes a fold. Its run comes to an end, and if it does not fail
the accumulator and the phi hold on every lane the left fold of the body over the
counters, from the entry that the accumulator had when the loop was entered; all
other entries from before the loop are as they were then. -/
theorem reduction_folds {p : Program} {r : Reduction} {s t : Int} {c : Context} {point : Point}
    {warp : Warp} {buffers : List Buffer} {launchValues : List Value}
    (hp : p.validate = .ok ()) (hr : r.In p) (hlaunch : ∀ v ∈ launchValues, v.WellFormed)
    (hc : run p r.loop (.start point warp buffers launchValues) = (c, .unfinished))
    (hstart : c.operandInt? p r.loop 0 = some s) (hstop : c.operandInt? p r.loop 1 = some t)
    (hst : s < t) :
    (∃ n, (run p n (.start point warp buffers launchValues)).2 ≠ .unfinished) ∧
      ∀ n e, run p n (.start point warp buffers launchValues) = (e, .halted) →
        r.Folds p s t c e := by
  have hacc : p.Accepted := Program.accepted_of_validate hp
  have hend : (run p r.loop (.start point warp buffers launchValues)).2 = .unfinished := by
    rw [hc]
  have hbefore := hr.before_run hacc (Reduction.In.before_start r point warp buffers launchValues)
    le_rfl hend
  have hadd := run_add_of_unfinished hend
  obtain ⟨o, harrives⟩ := exists_arrives_of_unfinished hend
  rw [hc] at hbefore hadd harrives
  have hlanes : c.Lanewise := harrives.lanewise hacc (Context.lanewise_start _ _ _ _)
  have hwf : c.ValuesWellFormed :=
    harrives.valuesWellFormed ⟨Context.entries_start _ _ _ _, hlaunch⟩
  have hloop : Reduction.AtLoop r p s c 0 c :=
    ⟨Reduction.rounds_zero hlanes (hbefore.acc hr.acc_lt), hbefore.pc,
      fun _ => hbefore.fresh _ le_rfl, nofun⟩
  obtain ⟨⟨n, hn⟩, hfolds⟩ := hloop.run hr hacc hwf hstart hstop hst
  refine ⟨⟨r.loop + n, by rwa [hadd]⟩, ?_⟩
  intro m e hm
  have hle : r.loop ≤ m := by
    by_contra hlt
    have hcut := unfinished_of_le hend (Nat.le_of_not_le hlt)
    rw [hm] at hcut
    cases hcut
  obtain ⟨m, rfl⟩ := Nat.exists_eq_add_of_le hle
  rw [hadd] at hm
  exact hfolds m e hm

/-- Adds the elements of a buffer to an accumulator. -/
def Program.sumOfTwo : Program where
  uops :=
    [⟨.defineGlobal, some (.scalar (.int .int8)), [], .name "in"⟩,
     ⟨.const, some (.scalar (.int .int32)), [], .literal (.int 0)⟩,
     ⟨.const, some (.scalar (.int .int32)), [], .literal (.int 2)⟩,
     ⟨.defineAcc, some (.scalar (.int .int8)), [], .literal (.int 1)⟩,
     ⟨.loop, some (.scalar (.int .int32)), [1, 2], .none⟩,
     ⟨.load, some (.scalar (.int .int8)), [0, 4], .none⟩,
     ⟨.alu, some (.scalar (.int .int8)), [3, 5], .operation .add⟩,
     ⟨.phi, some (.scalar (.int .int8)), [3, 6], .none⟩,
     ⟨.endLoop, none, [4], .none⟩]

/-- On each of two lanes the accumulator, which was 1, ends as the sum of 1, 5
and 7. -/
theorem reduction_folds_sumOfTwo : ∃ e,
    run .sumOfTwo 20 (.start ⟨0, 0, 0⟩ ⟨⟨2, 1, 1⟩⟩ [⟨.int .int8, #[5, 7]⟩] []) = (e, .halted) ∧
      ∀ j < 2, e.lane? j 3 = some (.scalar (.int .int8 13)) ∧
        e.lane? j 7 = some (.scalar (.int .int8 13)) := by
  obtain ⟨c, hcut⟩ : ∃ c, run .sumOfTwo 4 (.start ⟨0, 0, 0⟩ ⟨⟨2, 1, 1⟩⟩
      [⟨.int .int8, #[5, 7]⟩] []) = (c, .unfinished) :=
    ⟨_, Prod.ext rfl (by decide +kernel)⟩
  obtain ⟨e, hend⟩ : ∃ e, run .sumOfTwo 20 (.start ⟨0, 0, 0⟩ ⟨⟨2, 1, 1⟩⟩
      [⟨.int .int8, #[5, 7]⟩] []) = (e, .halted) :=
    ⟨_, Prod.ext rfl (by decide +kernel)⟩
  have hr : Reduction.In ⟨3, 4, .int32, 2, 6⟩ .sumOfTwo := by
    refine ⟨rfl, by decide, by decide, ⟨_, rfl, rfl⟩, ?_, by decide, ⟨_, rfl, rfl, rfl⟩,
      ⟨_, rfl, rfl, rfl⟩⟩
    exact ⟨_, _, 1, 2, rfl, rfl, rfl, rfl, rfl, by decide, by decide⟩
  have hc : c = (run .sumOfTwo 4 (.start ⟨0, 0, 0⟩ ⟨⟨2, 1, 1⟩⟩ [⟨.int .int8, #[5, 7]⟩] [])).1 := by
    rw [hcut]
  have hwarp : c.warp.laneCount = 2 := by
    rw [hc]
    decide +kernel
  have hone : ∀ j < 2, c.lane? j 3 = some (.scalar (.int .int8 1)) ∧
      (Int.range 0 2).foldlM (Reduction.pass? ⟨3, 4, .int32, 2, 6⟩ .sumOfTwo c j)
        (.scalar (.int .int8 1)) = some (.scalar (.int .int8 13)) := by
    rw [hc]
    decide +kernel
  obtain ⟨-, hfolds⟩ := reduction_folds (s := 0) (t := 2) (by decide) hr (by decide) hcut
    (by rw [hc]; decide +kernel) (by rw [hc]; decide +kernel) (by decide)
  refine ⟨e, hend, ?_⟩
  intro j hj
  obtain ⟨a, b, ha, hfold, hacc, hphi⟩ := (hfolds 20 e hend).lanes j (hwarp ▸ hj)
  obtain ⟨ha', hfold'⟩ := hone j hj
  obtain rfl := Option.some.inj (ha'.symm.trans ha)
  obtain rfl := Option.some.inj (hfold'.symm.trans hfold)
  exact ⟨hacc, hphi⟩

end Lockstep
