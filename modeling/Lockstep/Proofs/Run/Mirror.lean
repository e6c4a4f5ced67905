import Lockstep.Proofs.Run.Lanes
import Lockstep.Proofs.Step.Failure
import Lockstep.Proofs.Step.SameLane

/-!
# Runs of different warps

The lanes of a warp share control, the bounds of loops and the table of values.
Still no lane learns how many others there are: without stores, tensor cores and
casts of scalars, runs of two warps go through the same positions and leave the
same value on lanes with the same local coordinate. The bounds of a loop are those
of the first lane, and the first lanes of all warps are at the origin.
-/

namespace Lockstep

/-- The values are the same on any two lanes with the same local coordinate. -/
def LaneValues.Agrees (w w' : Warp) (v v' : LaneValues) : Prop :=
  ∀ i j, Lockstep.SameAt i j w.lanes w'.lanes → v.SameAt i j v'

/-- The second context differs from the first only in its warp and its values; the
values agree, and the first lanes are at the same local coordinate. -/
inductive Context.Mirrors (c : Context) : Context → Prop where
  | intro {w : Warp} {vs : Table LaneValues}
      (first : SameAt 0 0 c.warp.lanes w.lanes)
      (values : ∀ q, Option.Rel (LaneValues.Agrees c.warp w) (c.values.get? q) (vs.get? q)) :
      Mirrors c { c with warp := w, values := vs }

/-- The operands are the same on any two lanes with the same local coordinate. -/
def OperandsAgree (w w' : Warp) (ops ops' : List Operand) : Prop :=
  ∀ i j, SameAt i j w.lanes w'.lanes → List.Forall₂ (Operand.SameAt i j) ops ops'

/-- No store, no tensor core and no cast of scalars: what the instruction leaves on a
lane depends on this lane and, if it is a loop, on the first. -/
structure Uop.KeepsLanesApart (u : Uop) : Prop where
  store : u.kind ≠ .store
  wmma : u.kind ≠ .wmma
  cast : u.kind = .cast → ∀ d, u.dtype = some d → d.isVector = true

instance (u : Uop) : Decidable u.KeepsLanesApart :=
  decidable_of_iff
    (u.kind ≠ .store ∧ u.kind ≠ .wmma ∧ (u.kind = .cast → ∀ d ∈ u.dtype, d.isVector = true))
    ⟨fun ⟨hs, hw, hc⟩ => ⟨hs, hw, hc⟩, fun h => ⟨h.store, h.wmma, h.cast⟩⟩

/-! ## Warps -/

namespace Warp

theorem lt_laneCount_of_sameAt {w w' : Warp} {i j : Nat} (h : SameAt i j w.lanes w'.lanes) :
    i < w.laneCount ∧ j < w'.laneCount := by
  obtain ⟨x, hi, hj⟩ := h
  have hi := (List.getElem?_eq_some_iff.mp hi).1
  have hj := (List.getElem?_eq_some_iff.mp hj).1
  simpa [lanes, Grid.points, laneCount] using And.intro hi hj

/-- The first lane is at the origin. -/
theorem first_lane {w : Warp} (h : 0 < w.laneCount) : w.lanes[0]? = some ⟨0, 0, 0⟩ := by
  have hrange : (List.range w.size.volume)[0]? = some 0 := List.getElem?_range h
  simp [lanes, Grid.points, Grid.point, hrange]

theorem agrees_splat {w w' : Warp} (a : Value) :
    LaneValues.Agrees w w' (.scalar (w.splat a)) (.scalar (w'.splat a)) := by
  intro i j h
  obtain ⟨hi, hj⟩ := lt_laneCount_of_sameAt h
  exact .scalar (.replicate hi hj a)

theorem agrees_buffer {w w' : Warp} (view : View) :
    LaneValues.Agrees w w' (.buffer (w.splat view)) (.buffer (w'.splat view)) := by
  intro i j h
  obtain ⟨hi, hj⟩ := lt_laneCount_of_sameAt h
  exact .buffer (.replicate hi hj view)

end Warp

/-! ## Mirrored contexts -/

namespace Context.Mirrors

variable {c c' : Context} {v v' : LaneValues}

theorem pc_eq (h : c.Mirrors c') : c'.pc = c.pc := by
  cases h
  rfl

theorem memory_eq (h : c.Mirrors c') : c'.memory = c.memory := by
  cases h
  rfl

theorem loopEnds_eq (h : c.Mirrors c') : c'.loopEnds = c.loopEnds := by
  cases h
  rfl

/-- The first lanes, which decide about loops, agree. -/
theorem first_lanes (h : c.Mirrors c') : SameAt 0 0 c.warp.lanes c'.warp.lanes := by
  cases h with
  | intro first values => exact first

theorem cases_at (h : c.Mirrors c') (q : Nat) :
    c.values.get? q = none ∧ c'.values.get? q = none ∨
    ∃ v v' : LaneValues, c.values.get? q = some v ∧ c'.values.get? q = some v' ∧
      v.Agrees c.warp c'.warp v' := by
  cases h with
  | @intro w vs first values =>
    have hq := values q
    change _ ∧ vs.get? q = none ∨ ∃ v v' : LaneValues, _ ∧ vs.get? q = some v' ∧ v.Agrees c.warp w v'
    generalize c.values.get? q = a at hq
    generalize vs.get? q = b at hq
    cases hq with
    | none => exact .inl ⟨rfl, rfl⟩
    | some hv => exact .inr ⟨_, _, rfl, rfl, hv⟩

theorem insert (h : c.Mirrors c') (q : Nat) (hv : v.Agrees c.warp c'.warp v') :
    Mirrors { c with values := c.values.insert q v }
      { c' with values := c'.values.insert q v' } := by
  cases h with
  | @intro w vs first values =>
    refine .intro first fun q' => ?_
    by_cases he : q' = q
    · subst he
      rw [Table.get?_insert_self, Table.get?_insert_self]
      exact .some hv
    · rw [Table.get?_insert_of_ne _ he, Table.get?_insert_of_ne _ he]
      exact values q'

theorem define (h : c.Mirrors c') (hv : v.Agrees c.warp c'.warp v') :
    (c.define v).Mirrors (c'.define v') := by
  cases h with
  | intro first values => exact (Mirrors.intro first values).insert c.pc hv

theorem erase (h : c.Mirrors c') (q : Nat) :
    Mirrors { c with values := c.values.erase q } { c' with values := c'.values.erase q } := by
  cases h with
  | @intro w vs first values =>
    refine .intro first fun q' => ?_
    by_cases he : q' = q
    · subst he
      rw [Table.get?_erase_self, Table.get?_erase_self]
      exact .none
    · rw [Table.get?_erase_of_ne _ he, Table.get?_erase_of_ne _ he]
      exact values q'

theorem operands {p : Program} {u : Uop} {ops ops' : List Operand} (h : c.Mirrors c')
    (hg : gather p u c = .ok ops) (hg' : gather p u c' = .ok ops') :
    OperandsAgree c.warp c'.warp ops ops' := by
  intro i j hij
  cases h with
  | @intro w vs first values =>
    refine forall₂_images (List.forall₂_same.mpr fun _ _ => rfl) (mapM_eq_ok.mp hg)
      (mapM_eq_ok.mp hg') ?_
    rintro s _ o o' rfl ho ho'
    obtain ⟨hv, ht⟩ := operand_eq_ok.mp ho
    obtain ⟨hv', ht'⟩ := operand_eq_ok.mp ho'
    have hvals := values s
    change vs.get? s = _ at hv'
    rw [hv, hv'] at hvals
    cases hvals with
    | some hvals => exact ⟨hvals i j hij, Option.some.inj (ht.symm.trans ht')⟩

end Context.Mirrors

variable {p : Program} {u : Uop} {d : DType} {c c' : Context} {ops ops' : List Operand}

/-! ## Producing instructions -/

/-- Along one of the three axes a name stands for the coordinate of the grid point, for
those of the lanes or for nothing. -/
theorem Context.coordinates?_cases {dim : Nat} (hdim : dim < 3) (name : String) :
    (∃ f : Point → Nat, ∀ c : Context, c.coordinates? dim name = some (c.warp.splat (f c.point))) ∨
    (∃ f : Point → Nat, ∀ c : Context, c.coordinates? dim name = some (c.warp.lanes.map f)) ∨
    ∀ c : Context, c.coordinates? dim name = none := by
  obtain ⟨f, hf⟩ := Point.axis?_of_lt hdim
  unfold Context.coordinates?
  simp only [hf, List.mapM_pure]
  split
  · exact .inl ⟨f, fun c => rfl⟩
  · exact .inr (.inl ⟨f, fun c => rfl⟩)
  · exact .inr (.inr fun c => rfl)

namespace Context.Mirrors

variable {e e' : Context}

theorem defineGlobal (h : c.Mirrors c') (he : c.defineGlobal d = .ok e)
    (he' : c'.defineGlobal d = .ok e') : e.Mirrors e' := by
  obtain ⟨t, view, m, ht, hb, rfl⟩ := view_of_defineGlobal he
  obtain ⟨t', view', m', ht', hb', rfl⟩ := view_of_defineGlobal he'
  cases h with
  | intro first values =>
    cases ht.symm.trans ht'
    cases hb.symm.trans hb'
    exact define (c := { c with memory := m }) (.intro first values) (Warp.agrees_buffer view)

theorem defineLocal {arg : Arg} (h : c.Mirrors c') (he : c.defineLocal d arg = .ok e)
    (he' : c'.defineLocal d arg = .ok e') : e.Mirrors e' := by
  obtain ⟨t, name, size, ht, rfl, rfl⟩ := view_of_defineLocal he
  obtain ⟨t', name', size', ht', ha, rfl⟩ := view_of_defineLocal he'
  cases h with
  | intro first values =>
    cases ht.symm.trans ht'
    cases ha
    exact define (c := { c with memory := (c.memory.allocate t size).2 }) (.intro first values)
      (Warp.agrees_buffer _)

theorem defineVar (h : c.Mirrors c') (he : c.defineVar d = .ok e)
    (he' : c'.defineVar d = .ok e') : e.Mirrors e' := by
  obtain ⟨v, w, hv, hw, rfl⟩ := value_of_defineVar he
  obtain ⟨v', w', hv', hw', rfl⟩ := value_of_defineVar he'
  cases h with
  | intro first values =>
    cases hv.symm.trans hv'
    cases hw.symm.trans hw'
    exact define (c := { c with bound := c.bound + 1 }) (.intro first values)
      (Warp.agrees_splat w)

theorem sameAt_coordinates {dim i j : Nat} {name : String} {ns ns' : List Nat} (h : c.Mirrors c')
    (hdim : dim < 3) (hn : c.coordinates? dim name = some ns)
    (hn' : c'.coordinates? dim name = some ns') (hij : SameAt i j c.warp.lanes c'.warp.lanes) :
    SameAt i j ns ns' := by
  obtain ⟨f, hf⟩ | ⟨f, hf⟩ | hf := Context.coordinates?_cases hdim name
  · cases (hf c).symm.trans hn
    cases (hf c').symm.trans hn'
    obtain ⟨hi, hj⟩ := Warp.lt_laneCount_of_sameAt hij
    cases h with
    | intro first values => exact .replicate hi hj _
  · cases (hf c).symm.trans hn
    cases (hf c').symm.trans hn'
    exact hij.map f
  · cases (hf c).symm.trans hn

theorem isSome_coordinates? {dim : Nat} (hdim : dim < 3) (name : String) (c c' : Context) :
    (c.coordinates? dim name).isSome = (c'.coordinates? dim name).isSome := by
  obtain ⟨f, hf⟩ | ⟨f, hf⟩ | hf := Context.coordinates?_cases hdim name
  · rw [hf, hf]
    rfl
  · rw [hf, hf]
    rfl
  · rw [hf, hf]

/-- The name says whether there is a coordinate, in both contexts. -/
theorem special {arg : Arg} (h : c.Mirrors c') (he : c.special d arg = .ok e)
    (he' : c'.special d arg = .ok e') : e.Mirrors e' := by
  obtain ⟨dim, name, rfl, hdim, hc⟩ := coordinates_of_special he
  obtain ⟨dim', name', ha, -, hc'⟩ := coordinates_of_special he'
  cases ha
  have hsome := isSome_coordinates? hdim name c c'
  rcases hc with ⟨ns, lanes, hn, hl, rfl⟩ | ⟨hn, -, rfl⟩
  · rcases hc' with ⟨ns', lanes', hn', hl', rfl⟩ | ⟨hn', -, rfl⟩
    · exact h.define fun i j hij => .scalar ((h.sameAt_coordinates hdim hn hn' hij).mapM hl hl')
    · simp [hn, hn'] at hsome
  · rcases hc' with ⟨ns', lanes', hn', hl', rfl⟩ | ⟨hn', -, rfl⟩
    · simp [hn, hn'] at hsome
    · exact h

theorem constant {arg : Arg} (h : c.Mirrors c') (he : c.constant d arg = .ok e)
    (he' : c'.constant d arg = .ok e') : e.Mirrors e' := by
  obtain ⟨l, v, rfl, hv, rfl⟩ := literal_of_constant he
  obtain ⟨l', v', ha, hv', rfl⟩ := literal_of_constant he'
  cases ha
  cases hv.symm.trans hv'
  refine h.define ?_
  split
  · intro i j hij
    obtain ⟨hi, hj⟩ := Warp.lt_laneCount_of_sameAt hij
    refine .vector (List.forall₂_iff_get.mpr ⟨by simp, fun n _ _ => ?_⟩)
    rw [List.get_eq_getElem, List.get_eq_getElem, List.getElem_replicate, List.getElem_replicate]
    exact .replicate hi hj v
  · exact Warp.agrees_splat v

/-- The carried operand goes to the accumulator and to the phi itself. -/
theorem carry (h : c.Mirrors c') (hops : OperandsAgree c.warp c'.warp ops ops')
    (he : Lockstep.carry p u c ops = .ok e) (he' : Lockstep.carry p u c' ops' = .ok e') :
    e.Mirrors e' := by
  obtain ⟨a, r, o, hs, ho, rfl⟩ := operand_of_carry he
  obtain ⟨a', r', o', hs', ho', rfl⟩ := operand_of_carry he'
  cases hs.symm.trans hs'
  have hagree : o.values.Agrees c.warp c'.warp o'.values := fun i j hij =>
    (Operand.sameAt_require (hops i j hij) ho (h.pc_eq ▸ ho')).values
  exact define (h.insert a hagree) hagree

theorem produce (h : c.Mirrors c') (hu : u.KeepsLanesApart) (hd : u.dtype = some d)
    (hops : OperandsAgree c.warp c'.warp ops ops') (hne : u.kind = .alu → ops ≠ [])
    (he : Lockstep.produce p u d c ops = .ok e) (he' : Lockstep.produce p u d c' ops' = .ok e') :
    e.Mirrors e' := by
  unfold Lockstep.produce at he he'
  rw [h.pc_eq] at he'
  cases hk : u.kind <;> simp only [hk] at he he'
  case defineGlobal => exact h.defineGlobal he he'
  case defineLocal => exact h.defineLocal he he'
  case defineVar => exact h.defineVar he he'
  case special => exact h.special he he'
  case const => exact h.constant he he'
  case defineAcc => exact h.constant he he'
  case phi => exact h.carry hops he he'
  case wmma => exact absurd hk hu.wmma
  case cast =>
    obtain ⟨v, hv, rfl⟩ := map_eq_ok.mp he
    obtain ⟨v', hv', rfl⟩ := map_eq_ok.mp he'
    exact h.define fun i j hij => sameAt_cast (hops i j hij) (hu.cast hk d hd) hv hv'
  case load =>
    obtain ⟨v, hv, rfl⟩ := map_eq_ok.mp he
    obtain ⟨v', hv', rfl⟩ := map_eq_ok.mp he'
    rw [h.memory_eq] at hv'
    exact h.define fun i j hij => sameAt_load (hops i j hij) hv hv'
  case gep =>
    obtain ⟨v, hv, rfl⟩ := map_eq_ok.mp he
    obtain ⟨v', hv', rfl⟩ := map_eq_ok.mp he'
    exact h.define fun i j hij => sameAt_pick (hops i j hij) hv hv'
  case alu =>
    obtain ⟨v, hv, rfl⟩ := map_eq_ok.mp he
    obtain ⟨v', hv', rfl⟩ := map_eq_ok.mp he'
    exact h.define fun i j hij => sameAt_arithmetic (hops i j hij) (hne hk) hv hv'
  all_goals
    cases he
    cases he'
    exact h

/-! ## Loops -/

theorem enter (h : c.Mirrors c') (hops : OperandsAgree c.warp c'.warp ops ops')
    (he : Loop.enter c d ops = .ok e) (he' : Loop.enter c' d ops' = .ok e') : e.Mirrors e' := by
  obtain ⟨v, w, hv, hw, rfl⟩ := enter_eq_ok he
  obtain ⟨v', w', hv', hw', rfl⟩ := enter_eq_ok he'
  have hsame := Operand.firstLane_eq (hops 0 0 h.first_lanes) hv hv'
  subst hsame
  cases hw.symm.trans hw'
  exact h.define (Warp.agrees_splat w)

theorem rounds_agree {q : Nat} {counter counter' next next' : Lanes} (h : c.Mirrors c')
    (hn : c.values.get? q = some (.scalar counter))
    (hn' : c'.values.get? q = some (.scalar counter'))
    (hi : counter.mapM Loop.increment = .ok next)
    (hi' : counter'.mapM Loop.increment = .ok next') {i j : Nat}
    (hij : SameAt i j c.warp.lanes c'.warp.lanes) : SameAt i j next next' := by
  obtain ⟨hnone, -⟩ | ⟨v, v', hv, hv', hagree⟩ := h.cases_at q
  · cases hn.symm.trans hnone
  · cases hn.symm.trans hv
    cases hn'.symm.trans hv'
    cases hagree i j hij with
    | scalar hsame => exact hsame.mapM hi hi'

/-- Both loops are entered, go round once more or are left. -/
theorem visit {k k' : Control} (h : c.Mirrors c') (hops : OperandsAgree c.warp c'.warp ops ops')
    (hv : Loop.visit c d ops = (e, .ok k)) (hv' : Loop.visit c' d ops' = (e', .ok k')) :
    e.Mirrors e' ∧ k = k' := by
  have hcases := h.cases_at c.pc
  obtain ⟨hn, he, rfl⟩ | ⟨counter, next, stop, hn, hi, hs, hround⟩ := cases_of_visit hv
  · obtain ⟨-, he', rfl⟩ | ⟨counter', -, -, hn', -⟩ := cases_of_visit hv'
    · exact ⟨h.enter hops he he', rfl⟩
    · rw [h.pc_eq] at hn'
      simp [hn, hn'] at hcases
  · obtain ⟨hn', -⟩ | ⟨counter', next', stop', hn', hi', hs', hround'⟩ := cases_of_visit hv'
    · rw [h.pc_eq] at hn'
      simp [hn, hn'] at hcases
    · rw [h.pc_eq] at hn'
      have hnext {i j : Nat} := h.rounds_agree (i := i) (j := j) hn hn' hi hi'
      obtain rfl := Operand.firstLane_eq (hops 0 0 h.first_lanes) hs hs'
      rw [Loop.reached_eq (hnext h.first_lanes)] at hround
      obtain ⟨hr, rfl, rfl⟩ | ⟨x, hr, hx, rfl, rfl⟩ := hround
      · obtain ⟨-, rfl, rfl⟩ | ⟨x', hr', -⟩ := hround'
        · exact ⟨h.define fun i j hij => .scalar (hnext hij), rfl⟩
        · cases hr.symm.trans hr'
      · obtain ⟨hr', -⟩ | ⟨x', -, hx', rfl, rfl⟩ := hround'
        · cases hr.symm.trans hr'
        · refine ⟨h.pc_eq ▸ h.erase c.pc, ?_⟩
          rw [h.pc_eq, h.loopEnds_eq] at hx'
          rw [Option.some.inj (hx.symm.trans hx')]

/-! ## Steps -/

variable {k k' : Control}

theorem follow (h : c.Mirrors c') (k : Control) : (c.follow k).Mirrors (c'.follow k) := by
  cases h with
  | intro first values => cases k <;> exact .intro first values

theorem counted (h : c.Mirrors c') : c.counted.Mirrors c'.counted := by
  cases h with
  | intro first values => exact .intro first values

theorem declared (h : c.Mirrors c') (d : DType) : (c.declared d).Mirrors (c'.declared d) := by
  cases h with
  | intro first values => exact .intro first values

theorem closeLoop (h : c.Mirrors c') (he : Lockstep.closeLoop u c = (e, .ok k))
    (he' : Lockstep.closeLoop u c' = (e', .ok k')) : e.Mirrors e' ∧ k = k' := by
  unfold Lockstep.closeLoop at he he'
  split at he
  · cases he
  · rename_i l r hs
    simp only [hs] at he'
    cases he
    cases he'
    cases h with
    | intro first values => exact ⟨.intro first values, rfl⟩

theorem declare (h : c.Mirrors c') (hu : u.KeepsLanesApart) (hv : u.kind.isVoid = false)
    (hops : OperandsAgree c.warp c'.warp ops ops') (hne : u.kind = .alu → ops ≠ [])
    (he : Lockstep.define p u c ops = (e, .ok k))
    (he' : Lockstep.define p u c' ops' = (e', .ok k')) : e.Mirrors e' ∧ k = k' := by
  obtain ⟨d, hd, ⟨hk, hloop⟩ | ⟨hk, hmade, rfl⟩⟩ := cases_of_define hv he
  · obtain ⟨d', hd', ⟨-, hloop'⟩ | ⟨hk', -⟩⟩ := cases_of_define hv he'
    · cases hd.symm.trans hd'
      exact (h.declared d).visit hops hloop hloop'
    · simp [hk, Kind.isProducer] at hk'
  · obtain ⟨d', hd', ⟨hk', -⟩ | ⟨-, hmade', rfl⟩⟩ := cases_of_define hv he'
    · simp [hk', Kind.isProducer] at hk
    · cases hd.symm.trans hd'
      exact ⟨(h.declared d).produce hu hd hops hne hmade hmade', rfl⟩

/-- Steps of mirrored contexts that do not fail lead to mirrored contexts, with the
same control. -/
theorem step (hp : p.Accepted) (hl : ∀ u ∈ p.uops, u.KeepsLanesApart) (h : c.Mirrors c')
    (hs : Lockstep.step p c = (e, .ok k)) (hs' : Lockstep.step p c' = (e', .ok k')) :
    e.Mirrors e' ∧ k = k' := by
  cases hu : p.get? c.pc with
  | none =>
    have hu' : p.get? c'.pc = none := by rw [h.pc_eq, hu]
    rw [Lockstep.step, hu] at hs
    rw [Lockstep.step, hu'] at hs'
    cases hs
    cases hs'
    exact ⟨h, rfl⟩
  | some u =>
    have hu' : p.get? c'.pc = some u := by rw [h.pc_eq, hu]
    have hapart := hl u (List.mem_of_getElem? hu)
    by_cases hend : u.kind = .endLoop
    · rw [step_of_endLoop hu hend] at hs
      rw [step_of_endLoop hu' hend] at hs'
      exact h.counted.closeLoop hs hs'
    cases hm : u.kind.isMarker with
    | true =>
      cases hs.symm.trans (step_of_fires (.mark hu hm))
      cases hs'.symm.trans (step_of_fires (.mark hu' hm))
      exact ⟨h.counted, rfl⟩
    | false =>
      obtain ⟨ops, hg, hs⟩ := gathered_of_step hu hend hm hs
      obtain ⟨ops', hg', hs'⟩ := gathered_of_step hu' hend hm hs'
      rw [if_neg hapart.store] at hs hs'
      have hvoid : u.kind.isVoid = false := by
        have hstore := hapart.store
        cases hk : u.kind <;> simp_all [Kind.isVoid, Kind.isMarker]
      exact h.counted.declare hapart hvoid (h.operands hg hg') (hp.operands_ne_nil hu hg) hs hs'

end Context.Mirrors

/-! ## Runs -/

section

variable {e e' : Context} {n n' : Nat}

/-- A run that halts does so at once, or goes on one instruction and halts from
there. -/
theorem cases_of_halted (h : run p (n + 1) c = (e, .halted)) :
    step p c = (e, .ok .halt) ∨
      ∃ d k, step p c = (d, .ok k) ∧ k ≠ .halt ∧ run p n (d.follow k) = (e, .halted) := by
  rw [run] at h
  obtain ⟨d, r, hs⟩ : ∃ d r, step p c = (d, r) := ⟨_, _, rfl⟩
  rw [hs] at h
  cases r with
  | error f => cases h
  | ok k =>
    cases k with
    | halt =>
      cases h
      exact .inl hs
    | proceed => exact .inr ⟨d, .proceed, hs, by simp, h⟩
    | jump t => exact .inr ⟨d, .jump t, hs, by simp, h⟩

/-- Runs of mirrored contexts that halt end in mirrored contexts. -/
theorem Context.Mirrors.run (hp : p.Accepted) (hl : ∀ u ∈ p.uops, u.KeepsLanesApart)
    (h : c.Mirrors c') (hrun : run p n c = (e, .halted)) (hrun' : run p n' c' = (e', .halted)) :
    e.Mirrors e' := by
  induction n generalizing n' c c' with
  | zero => cases hrun
  | succ n ih =>
    cases n' with
    | zero => cases hrun'
    | succ n' =>
      obtain hs | ⟨d, k, hs, hne, hrun⟩ := cases_of_halted hrun
      · obtain hs' | ⟨d', k', hs', hne', -⟩ := cases_of_halted hrun'
        · exact (h.step hp hl hs hs').1
        · exact absurd (h.step hp hl hs hs').2.symm hne'
      · obtain hs' | ⟨d', k', hs', -, hrun'⟩ := cases_of_halted hrun'
        · exact absurd (h.step hp hl hs hs').2 hne
        · obtain ⟨hd, rfl⟩ := h.step hp hl hs hs'
          exact ih (hd.follow k) hrun hrun'

theorem warp_of_halted (h : run p n c = (e, .halted)) : e.warp = c.warp := by
  induction n generalizing c with
  | zero => cases h
  | succ n ih =>
    obtain hs | ⟨d, k, hs, -, hrun⟩ := cases_of_halted h
    · exact (fires_of_step hs).warp_eq
    · rw [ih hrun, Context.follow_warp, (fires_of_step hs).warp_eq]

/-- Runs of one program at one grid point with the same launch values and buffers,
but with warps of any two sizes: whatever lanes have the same local coordinate, the
final tables have a value at the same positions, of the same shape and the same on
these lanes. -/
theorem lanes_independent {point : Point} {w w' : Warp} {buffers : List Buffer}
    {launchValues : List Value} {i j : Nat} (hp : p.validate = .ok ())
    (hl : ∀ u ∈ p.uops, u.KeepsLanesApart)
    (hrun : (run p n (.start point w buffers launchValues)).2 = .halted)
    (hrun' : (run p n' (.start point w' buffers launchValues)).2 = .halted)
    (hij : SameAt i j w.lanes w'.lanes) (q : Nat) :
    Option.Rel (LaneValues.SameAt i j)
      ((run p n (.start point w buffers launchValues)).1.values.get? q)
      ((run p n' (.start point w' buffers launchValues)).1.values.get? q) := by
  obtain ⟨hi, hj⟩ := Warp.lt_laneCount_of_sameAt hij
  have hfirst : SameAt 0 0 w.lanes w'.lanes :=
    ⟨_, Warp.first_lane (Nat.zero_lt_of_lt hi), Warp.first_lane (Nat.zero_lt_of_lt hj)⟩
  have hstart : Context.Mirrors (.start point w buffers launchValues)
      (.start point w' buffers launchValues) := .intro hfirst fun q => .none
  generalize hr : run p n (.start point w buffers launchValues) = r at hrun ⊢
  generalize hr' : run p n' (.start point w' buffers launchValues) = r' at hrun' ⊢
  obtain ⟨e, o⟩ := r
  obtain ⟨e', o'⟩ := r'
  subst hrun hrun'
  have hend := hstart.run (Program.accepted_of_validate hp) hl hr hr'
  obtain ⟨hn, hn'⟩ | ⟨v, v', hv, hv', hagree⟩ := hend.cases_at q
  · rw [hn, hn']
    exact .none
  · rw [hv, hv']
    rw [warp_of_halted hr, warp_of_halted hr'] at hagree
    exact .some (hagree i j hij)

/-- Each lane loads the byte that its second coordinate counts. -/
def Program.lookup : Program where
  uops :=
    [⟨.defineGlobal, some (.scalar (.int .int8)), [], .name "in"⟩,
     ⟨.special, some (.scalar (.int .int32)), [], .axis 1 "lidx1"⟩,
     ⟨.load, some (.scalar (.int .int8)), [0, 1], .none⟩]

/-- The second of two lanes in a column, and the third of four lanes in a square, are
both at `(0, 1, 0)` and load the same byte. -/
theorem lanes_independent_lookup :
    Option.Rel (LaneValues.SameAt 1 2)
      ((run .lookup 4 (.start ⟨0, 0, 0⟩ ⟨⟨1, 2, 1⟩⟩ [⟨.int .int8, #[5, 7]⟩] [])).1.values.get? 2)
      ((run .lookup 4 (.start ⟨0, 0, 0⟩ ⟨⟨2, 2, 1⟩⟩ [⟨.int .int8, #[5, 7]⟩] [])).1.values.get? 2) :=
  lanes_independent (by decide) (by decide) (by decide +kernel) (by decide +kernel)
    ⟨⟨0, 1, 0⟩, rfl, rfl⟩ 2

end

end Lockstep
