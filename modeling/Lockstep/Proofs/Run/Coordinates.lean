import Lockstep.Proofs.Grid.Enumeration
import Lockstep.Proofs.Run.Lanes
import Lockstep.Proofs.Step.Failure
import Lockstep.Proofs.Step.Frame

/-!
# Coordinates in a run

An instruction that reads a coordinate leaves that of the grid point, which is the same on every
lane, or those of the lanes, in the order of the local grid. So all three local coordinates
together tell any two lanes apart.
-/

namespace Lockstep

/-- The coordinate along an axis. -/
def Point.along (x : Point) : Fin 3 → Nat
  | 0 => x.x
  | 1 => x.y
  | 2 => x.z

theorem Point.axis?_along (x : Point) (k : Fin 3) : x.axis? k = some (x.along k) := by
  match k with
  | 0 | 1 | 2 => rfl

theorem Point.eq_of_along {x y : Point} (h : ∀ k, x.along k = y.along k) : x = y := by
  have hx : x.x = y.x := h 0
  have hy : x.y = y.y := h 1
  have hz : x.z = y.z := h 2
  cases x
  cases y
  simp_all

/-- Whose coordinate is read. -/
inductive Subject where
  | point
  | lane
  deriving DecidableEq

/-- The first letter of the names that ask for it. -/
def Subject.letter : Subject → Char
  | point => 'g'
  | lane => 'l'

/-- The instruction reads coordinates along an axis as integers of a type. -/
structure Uop.ReadsAxis (u : Uop) (s : Subject) (k : Fin 3) (t : IntType) : Prop where
  kind : u.kind = .special
  type : ∃ d, u.dtype = some d ∧ d.element = .int t
  arg : ∃ name, u.arg = .axis k name ∧ name.toList.head? = some s.letter

/-- The coordinates that are read, lane by lane. -/
def Context.readings (c : Context) (k : Fin 3) : Subject → List Nat
  | .point => c.warp.splat (c.point.along k)
  | .lane => c.warp.lanes.map (·.along k)

theorem Context.coordinates?_of_letter {c : Context} {s : Subject} {k : Fin 3} {name : String}
    (h : name.toList.head? = some s.letter) : c.coordinates? k name = some (c.readings k s) := by
  obtain ⟨r, hr⟩ := List.head?_eq_some_iff.mp h
  have haxis : (fun x : Point => x.axis? k) = fun x => pure (x.along k) :=
    funext fun x => x.axis?_along k
  unfold coordinates?
  rw [hr, haxis, List.mapM_pure, Point.axis?_along]
  cases s <;> rfl

/-- Numbers become integers of a type one by one, if it holds all of them. -/
theorem mapM_ofInt_eq_ok {ns : List Nat} {t : IntType} {lanes : Lanes} :
    ns.mapM (fun (n : Nat) => conversion (Value.ofInt n (.int t))) = .ok lanes ↔
      (∀ n ∈ ns, t.contains n = true) ∧ lanes = ns.map fun (n : Nat) => .int t n := by
  have hone : ∀ (n : Nat) v, conversion (Value.ofInt n (.int t)) = .ok v ↔
      t.contains n = true ∧ .int t n = v := by
    intro n v
    rw [conversion_eq_ok, Value.ofInt]
    split
    next h => simp [h]
    next h => simp [h]
  rw [mapM_eq_ok]
  simp only [hone]
  induction ns generalizing lanes with
  | nil => simp
  | cons n ns ih =>
    rw [List.forall₂_cons_left_iff, List.map_cons, List.forall_mem_cons]
    constructor
    · rintro ⟨v, vs, ⟨hn, rfl⟩, hrest, rfl⟩
      obtain ⟨hns, rfl⟩ := ih.mp hrest
      exact ⟨⟨hn, hns⟩, rfl⟩
    · rintro ⟨⟨hn, hns⟩, rfl⟩
      exact ⟨_, _, ⟨hn, rfl⟩, ih.mpr ⟨hns, rfl⟩, rfl⟩

section

variable {p : Program} {u : Uop} {s : Subject} {k : Fin 3} {t : IntType} {c d c₀ : Context}
  {o : Option Nat} {ops : List Operand} {q : Nat} {v : LaneValues}

/-! ## One step -/

/-- A coordinate is defined when the type holds it on every lane. -/
theorem Context.special_eq_ok {x : DType} {name : String} (hx : x.element = .int t)
    (hletter : name.toList.head? = some s.letter) :
    c.special x (.axis k name) = .ok d ↔ (∀ n ∈ c.readings k s, t.contains n = true) ∧
      d = c.define (.scalar ((c.readings k s).map fun (n : Nat) => .int t n)) := by
  have haxis : ¬ 3 ≤ k.val := Nat.not_le_of_lt k.isLt
  unfold special
  dsimp only
  rw [if_neg haxis, coordinates?_of_letter hletter, hx]
  dsimp only
  rw [bind_eq_ok]
  constructor
  · rintro ⟨lanes, hlanes, h⟩
    obtain ⟨hall, rfl⟩ := mapM_ofInt_eq_ok.mp hlanes
    exact ⟨hall, (Except.ok.inj h).symm⟩
  · rintro ⟨hall, rfl⟩
    exact ⟨_, mapM_ofInt_eq_ok.mpr ⟨hall, rfl⟩, rfl⟩

theorem produce_of_special {x : DType} (hk : u.kind = .special) :
    produce p u x c ops = c.special x u.arg := by
  unfold produce
  rw [hk]

/-- An instruction that reads coordinates and goes on leaves all of them. -/
theorem Steps.reads (h : Steps p c d) (hu : p.get? c.pc = some u) (hr : u.ReadsAxis s k t) :
    (∀ n ∈ c.readings k s, t.contains n = true) ∧
      d.values.get? c.pc = some (.scalar ((c.readings k s).map fun (n : Nat) => .int t n)) := by
  obtain ⟨x, hd, hx⟩ := hr.type
  obtain ⟨name, harg, hletter⟩ := hr.arg
  obtain ⟨c', control, hs, -, rfl⟩ := h
  have hk := hr.kind
  obtain ⟨ops, -, hs⟩ := gathered_of_step hu (by simp [hk]) (by simp [hk, Kind.isMarker]) hs
  rw [if_neg (by simp [hk])] at hs
  obtain ⟨x', hd', ⟨hloop, -⟩ | ⟨-, hp, -⟩⟩ := cases_of_define (by simp [hk, Kind.isVoid]) hs
  · cases hk.symm.trans hloop
  · cases hd.symm.trans hd'
    rw [produce_of_special hk, harg, Context.special_eq_ok hx hletter] at hp
    obtain ⟨hall, rfl⟩ := hp
    refine ⟨hall, ?_⟩
    rw [Context.follow_values]
    exact Table.get?_insert_self _ _ _

/-- With its operands there, the instruction goes on just when the type holds the coordinate of
every lane. -/
theorem steps_reads_iff (hu : p.get? c.pc = some u) (hr : u.ReadsAxis s k t)
    (hg : gather p u c = .ok ops) :
    (∃ d, Steps p c d) ↔ ∀ n ∈ c.readings k s, t.contains n = true := by
  constructor
  · rintro ⟨d, h⟩
    exact (h.reads hu hr).1
  · intro hall
    obtain ⟨x, hd, hx⟩ := hr.type
    obtain ⟨name, harg, hletter⟩ := hr.arg
    have hp : produce p u x (c.counted.declared x) ops = .ok ((c.counted.declared x).define
        (.scalar (((c.counted.declared x).readings k s).map fun (n : Nat) => .int t n))) := by
      rw [produce_of_special hr.kind, harg]
      exact (Context.special_eq_ok hx hletter).mpr ⟨hall, rfl⟩
    exact ⟨_, steps_of_proceed (step_of_fires (.produce hu (by rw [hr.kind]; rfl) hd hg hp))⟩

theorem Steps.point (h : Steps p c d) : d.point = c.point := by
  obtain ⟨c', control, hs, hne, rfl⟩ := h
  have hpoint : c'.point = c.point := by
    obtain ⟨-, rfl⟩ | ⟨v, -, hkeeps⟩ := (fires_of_step hs).keeps
    · rfl
    · exact hkeeps.point
  cases control <;> exact hpoint

/-! ## Runs -/

/-- What is read does not change during a run. -/
theorem Arrives.readings (h : Arrives p c₀ o c) : c.readings k s = c₀.readings k s := by
  have hpoint : c.point = c₀.point := by
    induction h with
    | start => rfl
    | step h hs ih => rw [hs.point, ih]
  cases s
  · rw [Context.readings, Context.readings, h.warp, hpoint]
  · rw [Context.readings, Context.readings, h.warp]

/-- At some time the run executes the instruction at the position, and this leaves the value
there. -/
def Deposits (p : Program) (c₀ : Context) (q : Nat) (v : LaneValues) : Prop :=
  ∃ o c d, Arrives p c₀ o c ∧ Steps p c d ∧ c.pc = q ∧ d.values.get? q = some v

theorem Deposits.reads (h : Deposits p c₀ q v) (hu : p.get? q = some u)
    (hr : u.ReadsAxis s k t) :
    v = .scalar ((c₀.readings k s).map fun (n : Nat) => .int t n) := by
  obtain ⟨o, c, d, harrives, hs, rfl, hv⟩ := h
  have hread := (hs.reads hu hr).2
  rw [hv, harrives.readings] at hread
  exact Option.some.inj hread

/-- Some phi has the position as its accumulator. -/
def Program.Carries (p : Program) (q : Nat) : Prop :=
  ∃ pc u, p.get? pc = some u ∧ u.kind = .phi ∧ (p.valueOperands u).head? = some q

/-- But for the accumulators, a value is the one that its own instruction has left. -/
theorem Arrives.deposits (h : Arrives p c₀ o c) (hstart : c₀.values.get? q = none)
    (hq : ¬ p.Carries q) (hv : c.values.get? q = some v) : Deposits p c₀ q v := by
  induction h generalizing v with
  | start => cases hstart.symm.trans hv
  | @step o c d h hs ih =>
    by_cases hpc : c.pc = q
    · exact ⟨o, c, d, h, hs, hpc, hv⟩
    · cases hu : p.get? c.pc with
      | none =>
        obtain ⟨c', control, hstep, hne, -⟩ := hs
        rw [Lockstep.step, hu] at hstep
        cases hstep
        exact absurd rfl hne
      | some w =>
        refine ih ?_
        rwa [hs.values_eq hu ?_] at hv
        rintro (heq | ⟨hphi, hhead⟩)
        · exact hpc heq.symm
        · exact hq ⟨_, w, hu, hphi, hhead⟩

/-- The local coordinates of two lanes differ along some axis. -/
theorem Warp.exists_along_ne {w : Warp} {i j : Nat} {x y : Point} (hx : w.lanes[i]? = some x)
    (hy : w.lanes[j]? = some y) (hij : i ≠ j) : ∃ k, x.along k ≠ y.along k := by
  by_contra hsame
  have heq : x = y := Point.eq_of_along fun k => by
    by_contra hne
    exact hsame ⟨k, hne⟩
  subst heq
  exact hij ((Grid.place_of_getElem? hx).trans (Grid.place_of_getElem? hy).symm)

/-- What the coordinates are that a run reads. -/
structure Coordinated (p : Program) (c₀ : Context) : Prop where
  lanes : Grid.Enumerates c₀.warp.size c₀.warp.lanes
  laneCount : c₀.warp.laneCount = c₀.warp.lanes.length
  /-- the instruction goes on when its type holds what it reads -/
  reads_iff : ∀ o c u s k t ops, Arrives p c₀ o c → p.get? c.pc = some u → u.ReadsAxis s k t →
    gather p u c = .ok ops →
      ((∃ d, Steps p c d) ↔ ∀ n ∈ c₀.readings k s, t.contains n = true)
  /-- the coordinate of the grid point is the same on all lanes -/
  point : ∀ q u k t v, p.get? q = some u → u.ReadsAxis .point k t → Deposits p c₀ q v →
    v = .scalar (c₀.warp.splat (.int t (c₀.point.along k)))
  lane : ∀ q u k t v, p.get? q = some u → u.ReadsAxis .lane k t → Deposits p c₀ q v →
    v = .scalar (c₀.warp.lanes.map fun x => .int t (x.along k))
  /-- the local coordinates along all axes tell lanes apart -/
  distinct : ∀ (q : Fin 3 → Nat) (t : Fin 3 → IntType) (es : Fin 3 → Lanes),
    (∀ k, ∃ u, p.get? (q k) = some u ∧ u.ReadsAxis .lane k (t k)) →
    (∀ k, Deposits p c₀ (q k) (.scalar (es k))) →
    ∀ i < c₀.warp.laneCount, ∀ j < c₀.warp.laneCount, i ≠ j →
      ∃ k x y, (es k)[i]? = some x ∧ (es k)[j]? = some y ∧ x.numericEq y = false
  /-- a value stays as it was left until a phi carries another one there -/
  kept : ∀ o c q v, Arrives p c₀ o c → ¬ p.Carries q → c.values.get? q = some v →
    Deposits p c₀ q v

theorem coordinated_start (p : Program) (point size : Point) (buffers : List Buffer)
    (launchValues : List Value) :
    Coordinated p (.start point ⟨size⟩ buffers launchValues) := by
  have hlane : ∀ q u k t v, p.get? q = some u → u.ReadsAxis .lane k t →
      Deposits p (.start point ⟨size⟩ buffers launchValues) q v →
      v = .scalar ((Grid.points size).map fun x => .int t (x.along k)) := by
    intro q u k t v hu hr hdeposits
    rw [hdeposits.reads hu hr, Context.readings, List.map_map]
    rfl
  refine ⟨Grid.enumerates_points size, (Grid.length_points size).symm, ?_, ?_, hlane, ?_, ?_⟩
  · intro o c u s k t ops harrives hu hr hg
    rw [steps_reads_iff hu hr hg, harrives.readings]
  · intro q u k t v hu hr hdeposits
    rw [hdeposits.reads hu hr, Context.readings, Warp.splat, List.map_replicate]
    rfl
  · intro q t es hreads hdeposits i hi j hj hij
    obtain ⟨x, hx⟩ : ∃ x, (Grid.points size)[i]? = some x := ⟨_, Grid.getElem?_points hi⟩
    obtain ⟨y, hy⟩ : ∃ y, (Grid.points size)[j]? = some y := ⟨_, Grid.getElem?_points hj⟩
    obtain ⟨k, hne⟩ := Warp.exists_along_ne (w := ⟨size⟩) hx hy hij
    obtain ⟨u, hu, hr⟩ := hreads k
    have hes : es k = (Grid.points size).map fun x => .int (t k) (x.along k) :=
      LaneValues.scalar.inj (hlane _ u k _ _ hu hr (hdeposits k))
    refine ⟨k, .int (t k) (x.along k), .int (t k) (y.along k), ?_, ?_, ?_⟩
    · rw [hes, List.getElem?_map, hx]
      rfl
    · rw [hes, List.getElem?_map, hy]
      rfl
    · exact beq_eq_false_iff_ne.mpr fun h => hne (Int.ofNat.inj h)
  · intro o c q v harrives hq hv
    exact harrives.deposits rfl hq hv

/-- The points of a grid and the lanes of a warp come once each, `x` fastest and `z` slowest, and
the coordinates that a run reads are theirs. -/
theorem coordinates_distinguish (p : Program) (point size : Point) (buffers : List Buffer)
    (launchValues : List Value) :
    Grid.Enumerates size (Grid.points size) ∧
      Coordinated p (.start point ⟨size⟩ buffers launchValues) :=
  ⟨Grid.enumerates_points size, coordinated_start p point size buffers launchValues⟩

end

end Lockstep
