import Lockstep.Proofs.Run.Entries
import Lockstep.Proofs.Run.Reach
import Lockstep.Proofs.Step.Compute
import Lockstep.Proofs.Step.Failure
import Lockstep.Proofs.Value.Tagged

/-!
# Runs keep values well formed

From well-formed launch values every program makes well-formed values only, so a
run of tags and payloads never has to go on with a default.
-/

namespace Lockstep

/-- Every value on every lane is well formed. -/
def LaneValues.WellFormed : LaneValues → Prop
  | scalar l => ∀ x ∈ l, x.WellFormed
  | vector es => ∀ e ∈ es, ∀ x ∈ e, x.WellFormed
  | buffer _ => True

namespace LaneValues

variable {v : LaneValues} {l : Lanes} {es : List Lanes}

theorem WellFormed.scalar? (h : v.WellFormed) (hl : v.scalar? = some l) :
    ∀ x ∈ l, x.WellFormed := by
  cases v with
  | scalar l' =>
    cases hl
    exact h
  | vector es => cases hl
  | buffer vs => cases hl

theorem WellFormed.vector? (h : v.WellFormed) (hes : v.vector? = some es) :
    ∀ e ∈ es, ∀ x ∈ e, x.WellFormed := by
  cases v with
  | vector es' =>
    cases hes
    exact h
  | scalar l => cases hes
  | buffer vs => cases hes

theorem WellFormed.element? {j : Nat} (h : v.WellFormed) (hl : v.element? j = some l) :
    ∀ x ∈ l, x.WellFormed := by
  cases v with
  | scalar l' =>
    cases hl
    exact h
  | vector es => exact h l (List.mem_of_getElem? hl)
  | buffer vs => cases hl

end LaneValues

/-! ## Computations -/

section

variable {d : DType} {ops : List Operand} {v : LaneValues}

theorem wellFormed_splat (w : Warp) {x : Value} (h : x.WellFormed) :
    ∀ y ∈ w.splat x, y.WellFormed := by
  intro y hy
  rw [List.eq_of_mem_replicate hy]
  exact h

theorem Operand.wellFormed_scalar {op : Operation} {i : Nat} {l : Lanes}
    (h : OperandsAre LaneValues.WellFormed ops) (hl : scalar op ops i = .ok l) :
    ∀ x ∈ l, x.WellFormed := by
  obtain ⟨v, hv, hs⟩ := h.of_bind (scalar_eq_ok.mp hl)
  exact hv.scalar? hs

theorem Operand.wellFormed_scalars {op : Operation} {rows : List Lanes}
    (h : OperandsAre LaneValues.WellFormed ops) (hrows : scalars op ops = .ok rows) :
    ∀ l ∈ rows, ∀ x ∈ l, x.WellFormed := by
  have hall := scalars_eq_ok.mp hrows
  intro l hl
  obtain ⟨k, hk, rfl⟩ := List.mem_iff_getElem.mp hl
  exact (h _ (List.getElem_mem _)).scalar? (hall.get (hall.length_eq ▸ hk) hk)

theorem wellFormed_cast {pc : Nat} (h : OperandsAre LaneValues.WellFormed ops)
    (hv : cast pc d ops = .ok v) : v.WellFormed := by
  cases casts_of_cast hv with
  | repack hd ho hn =>
    subst ho
    exact h _ List.mem_cons_self
  | pack hd hn hr => exact Operand.wellFormed_scalars h hr
  | convert hd hl hr =>
    intro y hy
    obtain ⟨x, hx, hxy⟩ := mem_of_mapM hr hy
    exact (Value.made_convert (Operand.wellFormed_scalar h hl x hx) hxy).2
  | keep hd hl he => exact Operand.wellFormed_scalar h hl

theorem wellFormed_loadElement {m : Memory} {views : List View} {j : Nat} {l : Lanes}
    (h : OperandsAre LaneValues.WellFormed ops) (hl : loadElement m views ops j = .ok l) :
    ∀ x ∈ l, x.WellFormed := by
  obtain ⟨offsets, -, hl⟩ := bind_eq_ok.mp hl
  split at hl
  · obtain ⟨gate, -, hl⟩ := bind_eq_ok.mp hl
    obtain ⟨default, hdefault, hl⟩ := bind_eq_ok.mp hl
    obtain ⟨w, hw, hs⟩ := h.of_bind (Operand.element_eq_ok.mp hdefault)
    exact Memory.wellFormed_loadGated (hw.element? hs) hl
  · exact Memory.wellFormed_load hl

theorem wellFormed_loadElements {m : Memory} {views : List View} {j count : Nat}
    {es : List Lanes} (h : OperandsAre LaneValues.WellFormed ops)
    (hes : loadElements m views ops j count = .ok es) : ∀ e ∈ es, ∀ x ∈ e, x.WellFormed := by
  induction count generalizing j es with
  | zero =>
    cases hes
    nofun
  | succ count ih =>
    obtain ⟨l, hl, hes⟩ := bind_eq_ok.mp hes
    obtain ⟨r, hr, hes⟩ := bind_eq_ok.mp hes
    cases hes
    intro e he
    rcases List.mem_cons.mp he with rfl | he
    · exact wellFormed_loadElement h hl
    · exact ih hr e he

theorem wellFormed_load {m : Memory} (h : OperandsAre LaneValues.WellFormed ops)
    (hv : load m d ops = .ok v) : v.WellFormed := by
  cases loads_of_load hv with
  | texels ho hb hs hn hc he => exact Memory.wellFormed_loadImage he
  | vector ho hb hs hd he => exact wellFormed_loadElements h he
  | scalar ho hb hs hd hl => exact wellFormed_loadElement h hl

theorem wellFormed_pick {pc : Nat} {arg : Arg} (h : OperandsAre LaneValues.WellFormed ops)
    (hv : pick pc arg ops = .ok v) : v.WellFormed := by
  obtain ⟨k, l, -, hl, rfl⟩ := element_of_pick hv
  obtain ⟨w, hw, hes⟩ := h.of_bind (f := fun v => v.vector?.bind (·[k]?)) hl
  obtain ⟨es, hes, hget⟩ := Option.bind_eq_some_iff.mp hes
  exact hw.vector? hes l (List.mem_of_getElem? hget)

theorem wellFormed_multiplyAccumulate {pc : Nat} {arg : Arg}
    (hv : multiplyAccumulate pc d arg ops = .ok v) : v.WellFormed := by
  obtain ⟨tag, core, a, b, c, es, -, -, -, -, -, hes, rfl⟩ := core_of_multiplyAccumulate hv
  exact TensorCore.wellFormed_execute hes

theorem wellFormed_arithmetic {pc : Nat} {arg : Arg} (hv : arithmetic pc d arg ops = .ok v) :
    v.WellFormed := by
  obtain ⟨op, rows, l, -, -, hl, rfl⟩ := rows_of_arithmetic hv
  intro x hx
  obtain ⟨n, -, hn⟩ := mem_of_mapM hl hx
  exact Alu.wellFormed_execute hn

end

/-! ## Steps and runs -/

/-- All values that the context holds are well formed. -/
structure Context.ValuesWellFormed (c : Context) : Prop where
  entries : c.Entries LaneValues.WellFormed
  launchValues : ∀ v ∈ c.launchValues, v.WellFormed

variable {p : Program} {c c' d : Context}

theorem Makes.valuesWellFormed {u : Uop} {t : DType} {ops : List Operand}
    (h : c.ValuesWellFormed) (hops : OperandsAre LaneValues.WellFormed ops)
    (hm : Makes p u t c ops d) : d.ValuesWellFormed := by
  obtain ⟨he, hl⟩ := h
  cases hm with
  | global hk ht hb => exact ⟨he.define (v := .buffer _) trivial, hl⟩
  | scratch hk ht ha => exact ⟨he.define (v := .buffer _) trivial, hl⟩
  | launchValue hk hv hw =>
    have hwf := (Value.made_convert (hl _ (List.mem_of_getElem? hv)) hw).2
    exact ⟨he.define (v := .scalar _) (wellFormed_splat c.warp hwf), hl⟩
  | coordinate hk ha hn hlanes =>
    refine ⟨he.define (v := .scalar _) fun x hx => ?_, hl⟩
    obtain ⟨n, -, hx⟩ := mem_of_mapM hlanes hx
    exact (Value.made_ofInt (conversion_eq_ok.mp hx)).2
  | nameless hk hc => exact ⟨he, hl⟩
  | literal hk ha hv =>
    have hwf := (Value.made_toValue hv).2
    refine ⟨he.define ?_, hl⟩
    split
    · intro e hmem
      rw [List.eq_of_mem_replicate hmem]
      exact wellFormed_splat c.warp hwf
    · exact wellFormed_splat c.warp hwf
  | cast hk hv => exact ⟨he.define (wellFormed_cast hops hv), hl⟩
  | load hk hv => exact ⟨he.define (wellFormed_load hops hv), hl⟩
  | carry hk hs ho =>
    have hwf := hops _ (List.mem_of_getElem? (Operand.require_eq_ok.mp ho))
    exact ⟨(he.insert hwf).insert hwf, hl⟩
  | pick hk hv => exact ⟨he.define (wellFormed_pick hops hv), hl⟩
  | wmma hk hv => exact ⟨he.define (wellFormed_multiplyAccumulate hv), hl⟩
  | alu hk hv => exact ⟨he.define (wellFormed_arithmetic hv), hl⟩

theorem Fires.valuesWellFormed {k : Control} (h : c.ValuesWellFormed) (hf : Fires p c d k) :
    d.ValuesWellFormed := by
  have hentries := h.entries
  have hlaunch := h.launchValues
  cases hf with
  | @produce u t ops c' hu hk hd hg hm =>
    exact Makes.valuesWellFormed (c := c.counted.declared t) ⟨hentries, hlaunch⟩
      (hentries.operands hg) (makes_of_produce hk hm)
  | @enter u t ops v w hu hk hd hg hn hv hw =>
    obtain ⟨x, hx, hs⟩ := (hentries.operands hg).of_bind (f := fun v => v.scalar?.bind List.head?)
      (Operand.firstLane_eq_ok.mp hv)
    obtain ⟨l, hl, hhead⟩ := Option.bind_eq_some_iff.mp hs
    have hwf := (Value.made_convert (hx.scalar? hl v (List.mem_of_mem_head? hhead)) hw).2
    exact ⟨Context.Entries.define (c := c.counted.declared t) hentries (v := .scalar _)
      (wellFormed_splat c.warp hwf), hlaunch⟩
  | @again u t ops counter next stop hu hk hd hg hn hi hv hr =>
    refine ⟨Context.Entries.define (c := c.counted.declared t) hentries (v := .scalar _)
      fun x hx => ?_, hlaunch⟩
    obtain ⟨y, -, hy⟩ := mem_of_mapM hi hx
    obtain ⟨one, -, hadd⟩ := bind_eq_ok.mp hy
    exact Alu.wellFormed_execute hadd
  | @leave u t ops counter next stop e hu hk hd hg hn hi hv hr he =>
    exact ⟨Context.Entries.erase (c := c.counted.declared t) hentries c.pc, hlaunch⟩
  | _ => exact ⟨hentries, hlaunch⟩

/-- A step that fails makes no value. -/
theorem Breaks.valuesWellFormed {f : Fault} (h : c.ValuesWellFormed) (hb : Breaks p c c' f) :
    c'.ValuesWellFormed := by
  have hentries := h.entries
  have hlaunch := h.launchValues
  cases hb with
  | @unrecorded u t ops counter next stop hu hk hd hg hn ha hr he =>
    exact ⟨Context.Entries.erase (c := c.counted.declared t) hentries c.pc, hlaunch⟩
  | _ => exact ⟨hentries, hlaunch⟩

/-- The context after a step, whether it fails or not. -/
theorem Context.ValuesWellFormed.step (h : c.ValuesWellFormed) :
    (step p c).1.ValuesWellFormed := by
  obtain ⟨c', r, hs⟩ : ∃ c' r, Lockstep.step p c = (c', r) := ⟨_, _, rfl⟩
  rw [hs]
  cases r with
  | ok k => exact (fires_of_step hs).valuesWellFormed h
  | error f => exact (breaks_of_step hs).valuesWellFormed h

theorem Context.ValuesWellFormed.follow (h : c.ValuesWellFormed) (k : Control) :
    (c.follow k).ValuesWellFormed := by
  cases k <;> exact ⟨h.entries, h.launchValues⟩

theorem Steps.valuesWellFormed (h : c.ValuesWellFormed) (hs : Steps p c d) :
    d.ValuesWellFormed := by
  obtain ⟨c', k, hs, -, rfl⟩ := hs
  exact ((fires_of_step hs).valuesWellFormed h).follow k

theorem Arrives.valuesWellFormed {c₀ : Context} {o : Option Nat} (h : Arrives p c₀ o c)
    (h₀ : c₀.ValuesWellFormed) : c.ValuesWellFormed := by
  induction h with
  | start => exact h₀
  | step h hs ih => exact hs.valuesWellFormed ih

/-! ## All values -/

/-- Every function that gives a value gives a well-formed one, from any numbers and
bytes and from well-formed values. -/
structure GivesWellFormed : Prop where
  ofInt : ∀ i t v, Value.ofInt i t = .ok v → v.WellFormed
  ofFloat : ∀ x t v, Value.ofFloat x t = .ok v → v.WellFormed
  convert : ∀ (v : Value) t w, v.WellFormed → v.convert t = .ok w → w.WellFormed
  toValue : ∀ (l : Literal) t v, l.toValue t = .ok v → v.WellFormed
  readAs : ∀ (b : Buffer) t i v, b.readAs? t i = some v → v.WellFormed
  execute : ∀ op t vs v, (∀ x ∈ vs, x.WellFormed) → Alu.execute op t vs = .ok v → v.WellFormed
  load : ∀ (m : Memory) views offsets delta lanes,
    m.load views offsets delta = .ok lanes → ∀ x ∈ lanes, x.WellFormed
  loadGated : ∀ (m : Memory) views offsets gate default delta lanes,
    (∀ x ∈ default, x.WellFormed) → m.loadGated views offsets gate default delta = .ok lanes →
      ∀ x ∈ lanes, x.WellFormed
  loadImage : ∀ (m : Memory) views height width xs ys es,
    m.loadImage views height width xs ys = .ok es → ∀ e ∈ es, ∀ x ∈ e, x.WellFormed
  tensorCore : ∀ (core : TensorCore) a b c t es,
    core.execute a b c t = .ok es → ∀ e ∈ es, ∀ x ∈ e, x.WellFormed

/-- Whatever the defaults, the functions on tags and payloads agree on well-formed
values with the functions that have none. -/
structure DefaultsUnused : Prop where
  wellFormed : ∀ w : Tagged, w.WellFormed ↔ ∃ v : Value, v.WellFormed ∧ v.tagged = w
  ofInt : ∀ i t, Tagged.ofInt i t = (Value.ofInt i t).map Value.tagged
  ofFloat : ∀ x t, Tagged.ofFloat x t = (Value.ofFloat x t).map Value.tagged
  convert : ∀ default (v : Value) t, v.WellFormed →
    Tagged.convert default v.tagged t = (v.convert t).map Value.tagged
  operandNumber : ∀ default family (v : Value), v.WellFormed →
    Tagged.operandNumber default family v.tagged = Alu.operandNumber family v
  decode : ∀ default t bytes, bytes.length = t.size →
    Tagged.decode default t bytes = (decodeElement t bytes).tagged
  encode : ∀ default t (v : Value), v.WellFormed →
    Tagged.encode default t v.tagged = encodeElement t v

theorem givesWellFormed : GivesWellFormed where
  ofInt _ _ _ h := (Value.made_ofInt h).2
  ofFloat _ _ _ h := (Value.made_ofFloat h).2
  convert _ _ _ hv h := (Value.made_convert hv h).2
  toValue _ _ _ h := (Value.made_toValue h).2
  readAs _ _ _ _ h := Buffer.wellFormed_readAs? h
  execute _ _ _ _ _ h := Alu.wellFormed_execute h
  load _ _ _ _ _ h := Memory.wellFormed_load h
  loadGated _ _ _ _ _ _ _ hdefault h := Memory.wellFormed_loadGated hdefault h
  loadImage _ _ _ _ _ _ _ h := Memory.wellFormed_loadImage h
  tensorCore _ _ _ _ _ _ h := TensorCore.wellFormed_execute h

theorem defaultsUnused : DefaultsUnused where
  wellFormed _ := Tagged.wellFormed_iff
  ofInt := Value.ofInt_tagged
  ofFloat := Value.ofFloat_tagged
  convert default _ t hv := Value.convert_tagged hv default t
  operandNumber default family _ hv := Value.operandNumber_tagged hv default family
  decode default _ _ h := decodeElement_tagged h default
  encode default t _ hv := encodeElement_tagged hv default t

/-- From well-formed launch values a run of any program holds well-formed values
only, before and after each step. So do the functions that give it its values,
and the defaults of a representation by tags and payloads are never used. -/
theorem values_wellFormed {point : Point} {warp : Warp} {buffers : List Buffer}
    {launchValues : List Value} {o : Option Nat} (hlaunch : ∀ v ∈ launchValues, v.WellFormed)
    (h : Arrives p (.start point warp buffers launchValues) o c) :
    (∀ q v, c.values.get? q = some v → v.WellFormed) ∧
    (∀ q v, (step p c).1.values.get? q = some v → v.WellFormed) ∧
    GivesWellFormed ∧ DefaultsUnused := by
  have hc : c.ValuesWellFormed :=
    h.valuesWellFormed ⟨Context.entries_start _ _ _ _, hlaunch⟩
  exact ⟨hc.entries, hc.step.entries, givesWellFormed, defaultsUnused⟩

/-- The element that `copy` has loaded is well formed. -/
theorem values_wellFormed_copy :
    ∃ v, (run .copy 4 (.start ⟨1, 0, 0⟩ ⟨⟨2, 1, 1⟩⟩
      [⟨.int .int8, #[0, 0]⟩, ⟨.int .int8, #[5, 0x80]⟩] [.int .int8 (-128)])).1.values.get? 3 =
        some v ∧ v.WellFormed := by
  have h := @arrives_of_unfinished .copy (.start ⟨1, 0, 0⟩ ⟨⟨2, 1, 1⟩⟩
    [⟨.int .int8, #[0, 0]⟩, ⟨.int .int8, #[5, 0x80]⟩] [.int .int8 (-128)]) 3 (by decide)
  have hload : (run .copy 4 (.start ⟨1, 0, 0⟩ ⟨⟨2, 1, 1⟩⟩
      [⟨.int .int8, #[0, 0]⟩, ⟨.int .int8, #[5, 0x80]⟩] [.int .int8 (-128)])).1.values.get? 3 =
        some (.scalar [.int .int8 (-128), .int .int8 (-128)]) := by
    decide +kernel
  exact ⟨_, hload, (values_wellFormed (by decide) h).1 3 _ hload⟩

end Lockstep
