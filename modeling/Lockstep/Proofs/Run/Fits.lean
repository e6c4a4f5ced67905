import Lockstep.Proofs.Run.Presence

/-!
# Values that fit their types

The type of a vector should come with a vector of as many elements, and any other
type with a value that is no vector. Constants, casts, loads and buffers keep to
this by themselves; launch values, coordinates, counters, picked elements,
results of arithmetic and of tensor cores, and what a phi carries do so only where
the program declares the shape that is made. Nothing checks that, so the entries
of a program fit their types throughout its runs exactly if every instruction
that is executed declares the shape that it makes.
-/

namespace Lockstep

/-- The value has the shape of the type. -/
def LaneValues.Fits (d : DType) : LaneValues → Prop
  | vector es => 1 < d.count ∧ es.length = d.count
  | scalar _ | buffer _ => d.count ≤ 1

/-- The types are of vectors of one length, or neither is of a vector. -/
def DType.Alike (s t : DType) : Prop :=
  1 < s.count ∨ 1 < t.count → s.count = t.count

/-- The value at the position fits its type. -/
def Context.FitsAt (c : Context) (q : Nat) : Prop :=
  ∀ v d, c.values.get? q = some v → c.types.get? q = some d → v.Fits d

/-- Every value in the table fits its type. -/
def Context.Fits (c : Context) : Prop := ∀ q, c.FitsAt q

namespace Program

def declared? (p : Program) (pc : Nat) : Option DType := (p.get? pc).bind Uop.dtype

/-- An instruction of the type declares the shape that it makes. -/
def DeclaresAs (p : Program) (u : Uop) (d : DType) : Prop :=
  match u.kind with
  | .defineVar | .special | .loop | .gep | .alu => d.count ≤ 1
  | .wmma =>
    ∀ tag core, u.arg = .tag tag → TensorCore.ofTag tag = .ok core → d.count = core.sumElements
  | .phi =>
    ∀ a b s t, p.valueOperands u = [a, b] → p.declared? a = some s → p.declared? b = some t →
      s.Alike t ∧ d.Alike t
  | _ => True

/-- The instruction at the position declares the shape that it makes. -/
def Declares (p : Program) (pc : Nat) : Prop :=
  ∀ u d, p.get? pc = some u → u.dtype = some d → p.DeclaresAs u d

end Program

variable {p : Program} {c c₀ d : Context} {o : Option Nat} {u : Uop} {t : DType}
  {ops : List Operand}

/-! ## Shapes -/

namespace LaneValues

variable {v : LaneValues} {s : DType}

theorem fits_scalar {l : Lanes} : (scalar l).Fits t ↔ t.count ≤ 1 := Iff.rfl

/-- A value that fits one type fits those like it. -/
theorem Fits.iff_alike (h : v.Fits t) : v.Fits s ↔ s.Alike t := by
  unfold DType.Alike
  cases v with
  | vector es =>
    obtain ⟨hpos, hlen⟩ := h
    constructor
    · rintro ⟨-, hs⟩ -
      rw [← hs, hlen]
    · intro hst
      have heq := hst (.inr hpos)
      exact ⟨by omega, by omega⟩
  | _ =>
    simp only [Fits] at h ⊢
    constructor
    · intro hs hlt
      omega
    · intro hst
      by_contra hs
      have heq := hst (.inl (by omega))
      omega

end LaneValues

theorem count_of_bufferFormat {pc : Nat} {f : ScalarType} (h : bufferFormat pc t = .ok f) :
    t.count ≤ 1 := by
  cases t with
  | vector s n => cases h
  | _ => exact Nat.le_refl 1

theorem one_lt_count (h : t.isVector = true) : 1 < t.count := of_decide_eq_true h

theorem count_le_one (h : ¬ t.isVector = true) : t.count ≤ 1 :=
  Nat.not_lt.mp fun hlt => h (decide_eq_true hlt)

theorem fits_cast {pc : Nat} {v : LaneValues} (h : cast pc t ops = .ok v) : v.Fits t := by
  cases casts_of_cast h with
  | repack hd ho hn => exact ⟨one_lt_count hd, hn⟩
  | pack hd hn hr =>
    exact ⟨one_lt_count hd, ((Operand.scalars_eq_ok.mp hr).length_eq.symm.trans hn)⟩
  | convert hd hl hr => exact count_le_one (Bool.eq_false_iff.mp hd)
  | keep hd hl he => exact count_le_one (Bool.eq_false_iff.mp hd)

theorem length_loadElements {m : Memory} {views : List View} {j count : Nat} {es : List Lanes}
    (h : loadElements m views ops j count = .ok es) : es.length = count := by
  induction count generalizing j es with
  | zero =>
    cases h
    rfl
  | succ count ih =>
    obtain ⟨l, -, h⟩ := bind_eq_ok.mp h
    obtain ⟨r, hr, h⟩ := bind_eq_ok.mp h
    cases h
    exact congrArg (· + 1) (ih hr)

theorem fits_load {m : Memory} {v : LaneValues} (h : load m t ops = .ok v) : v.Fits t := by
  cases loads_of_load h with
  | texels ho hv hs hn hc he =>
    have hlen := length_of_mapM he
    rw [List.length_range] at hlen
    exact ⟨by rw [hn]; decide, hlen.trans hn.symm⟩
  | vector ho hv hs hd he => exact ⟨one_lt_count hd, length_loadElements he⟩
  | scalar ho hv hs hd hl => exact count_le_one (Bool.eq_false_iff.mp hd)

theorem fits_constant {w : Warp} {v : Value} : LaneValues.Fits t (if t.isVector then
    .vector (List.replicate t.count (w.splat v)) else .scalar (w.splat v)) := by
  split
  · rename_i hvec
    exact ⟨one_lt_count hvec, List.length_replicate⟩
  · rename_i hvec
    exact count_le_one hvec

/-- A tensor core makes a vector of as many elements as its layout has, whatever
type is declared. -/
theorem fits_multiplyAccumulate {n pc : Nat} {v : LaneValues} (hops : OperandsHaveLanes n ops)
    (h : multiplyAccumulate pc t u.arg ops = .ok v) :
    v.Fits t ↔
      ∀ tag core, u.arg = .tag tag → TensorCore.ofTag tag = .ok core → t.count = core.sumElements := by
  obtain ⟨tag, core, a, b, c, es, harg, hcore, -, -, hc, hes, rfl⟩ := core_of_multiplyAccumulate h
  have hlen := (TensorCore.lanes_execute (Operand.lanes_vector hops hc) hes).1
  have hmany : 1 < core.sumElements := by cases core <;> decide
  constructor
  · rintro ⟨-, hcount⟩ tag' core' harg' hcore'
    rw [harg] at harg'
    cases harg'
    rw [hcore] at hcore'
    cases hcore'
    rw [← hcount, hlen]
  · intro hall
    have hcount := hall tag core harg hcore
    exact ⟨by rw [hcount]; exact hmany, by rw [hlen, hcount]⟩

/-! ## Types on record -/

/-- Only declared types are on record. -/
def Context.DeclaredTypes (p : Program) (c : Context) : Prop :=
  ∀ q t, c.types.get? q = some t → p.declared? q = some t

theorem Program.declared?_of_get? {pc : Nat} (hu : p.get? pc = some u) (ht : u.dtype = some t) :
    p.declared? pc = some t := by
  rw [declared?, hu, Option.bind_some, ht]

theorem Context.types_declared {q : Nat} (hq : q ≠ c.pc) :
    (c.counted.declared t).types.get? q = c.types.get? q :=
  Table.get?_insert_of_ne _ hq _

theorem Context.types_declared_self : (c.counted.declared t).types.get? c.pc = some t :=
  Table.get?_insert_self _ _ _

theorem Context.DeclaredTypes.declared (h : c.DeclaredTypes p) (hu : p.get? c.pc = some u)
    (ht : u.dtype = some t) : (c.counted.declared t).DeclaredTypes p := by
  intro q s hs
  by_cases hq : q = c.pc
  · subst hq
    rw [types_declared_self] at hs
    cases hs
    exact Program.declared?_of_get? hu ht
  · rw [types_declared hq] at hs
    exact h q s hs

theorem Steps.declaredTypes (h : c.DeclaredTypes p) (hs : Steps p c d) : d.DeclaredTypes p := by
  obtain ⟨c', k, hs, hne, rfl⟩ := hs
  intro q s
  rw [Context.follow_types]
  revert q s
  cases fires_of_step hs with
  | produce hu hk hd hg hp =>
    rw [(makes_of_produce hk hp).types_eq]
    exact h.declared hu hd
  | enter hu hk hd hg hn hv hw => exact h.declared hu hd
  | again hu hk hd hg hn hi hv hr => exact h.declared hu hd
  | leave hu hk hd hg hn hi hv hr he => exact h.declared hu hd
  | _ => exact h

/-! ## Nameless coordinates -/

/-- A coordinate of neither kind never gets a value: it finds none to keep. -/
def Context.NamelessEmpty (p : Program) (c : Context) : Prop :=
  ∀ q u, p.get? q = some u → u.IsNameless → c.values.get? q = none

theorem Uop.IsNameless.coordinates? (h : u.IsNameless) {dim : Nat} {name : String}
    (ha : u.arg = .axis dim name) : c.coordinates? dim name = none := by
  obtain ⟨-, dim', name', ha', hg, hl⟩ := h
  rw [ha'] at ha
  cases ha
  unfold Context.coordinates?
  split
  · rename_i r hr
    exact absurd (by rw [hr]; rfl) hg
  · rename_i r hr
    exact absurd (by rw [hr]; rfl) hl
  · rfl

theorem Uop.IsNameless.values_none (h : u.IsNameless) (hu : p.get? c.pc = some u)
    (hnone : c.values.get? c.pc = none) : ¬ Steps p c d := by
  rintro ⟨c', k, hs, hne, rfl⟩
  have hkind := h.1
  have hsame : ∀ {u'}, p.get? c.pc = some u' → u = u' := fun hu' =>
    Option.some.inj (hu.symm.trans hu')
  cases fires_of_step hs with
  | halt hu' =>
    rw [hu] at hu'
    cases hu'
  | produce hu' hk hd hg hp =>
    obtain rfl := hsame hu'
    cases makes_of_produce hk hp with
    | coordinate hk ha hn hl =>
      rw [h.coordinates? ha] at hn
      cases hn
    | nameless hk hc =>
      have hsome : c.values.get? c.pc ≠ none := Option.isSome_iff_ne_none.mp hc
      exact hsome hnone
    | literal hk _ _ => rcases hk with hk | hk <;> cases hkind.symm.trans hk
    | _ hk => cases hkind.symm.trans hk
  | mark hu' hk =>
    obtain rfl := hsame hu'
    rw [hkind] at hk
    cases hk
  | _ hu' hk =>
    obtain rfl := hsame hu'
    cases hkind.symm.trans hk

theorem Steps.namelessEmpty (h : c.NamelessEmpty p) (hs : Steps p c d) : d.NamelessEmpty p := by
  intro q u hu hn
  by_cases hq : q = c.pc
  · subst hq
    exact absurd hs (hn.values_none hu (h _ u hu hn))
  · exact hs.values_none hq (h q u hu hn)

/-! ## One step -/

/-- What holds of the tables wherever a run arrives. -/
structure Context.Regular (p : Program) (c : Context) : Prop where
  lanewise : c.Lanewise
  typed : c.Typed
  declared : c.DeclaredTypes p
  nameless : c.NamelessEmpty p

theorem Context.regular_start (point : Point) (warp : Warp) (buffers : List Buffer)
    (launchValues : List Value) : (Context.start point warp buffers launchValues).Regular p where
  lanewise := lanewise_start _ _ _ _
  typed := typed_start _ _ _ _
  declared q t h := by cases h
  nameless q u hu hn := rfl

theorem Steps.regular (hp : p.Accepted) (h : c.Regular p) (hs : Steps p c d) : d.Regular p where
  lanewise := hs.lanewise hp h.lanewise
  typed := hs.typed h.typed
  declared := hs.declaredTypes h.declared
  nameless := hs.namelessEmpty h.nameless

theorem Program.declares_iff (hu : p.get? c.pc = some u) (ht : u.dtype = some t) :
    p.Declares c.pc ↔ p.DeclaresAs u t := by
  constructor
  · intro h
    exact h u t hu ht
  · intro h u' t' hu' ht'
    rw [hu] at hu'
    cases hu'
    rw [ht] at ht'
    cases ht'
    exact h

/-- A value given to the current instruction is the only one that might not fit. -/
theorem Context.Fits.define_iff (hc : c.Fits) {x : Context} {v : LaneValues} (hpc : x.pc = c.pc)
    (hvalues : x.values = c.values) (htypes : x.types = c.types.insert c.pc t) :
    (x.define v).Fits ↔ v.Fits t := by
  have hself : (x.define v).values.get? c.pc = some v := by
    rw [define_values, hpc, Table.get?_insert_self]
  have htype : (x.define v).types.get? c.pc = some t := by
    change x.types.get? c.pc = some t
    rw [htypes, Table.get?_insert_self]
  constructor
  · intro h
    exact h c.pc v t hself htype
  · intro hv q w s hw hs
    by_cases hq : q = c.pc
    · subst hq
      rw [hself] at hw
      rw [htype] at hs
      cases hw
      cases hs
      exact hv
    · rw [define_values, hpc, Table.get?_insert_of_ne _ hq, hvalues] at hw
      change x.types.get? q = some s at hs
      rw [htypes, Table.get?_insert_of_ne _ hq] at hs
      exact hc q w s hw hs

/-- What a phi carries has to fit the accumulator and the phi. -/
theorem Context.Fits.carry_iff (hc : c.Fits) {a : Nat} {v : LaneValues} {s : DType}
    (ha : a ≠ c.pc) (hs : c.types.get? a = some s) :
    (define { c.counted.declared t with values := c.values.insert a v } v).Fits ↔
      v.Fits s ∧ v.Fits t := by
  have hvalues : ∀ {q w}, q ≠ c.pc → q ≠ a → ((c.values.insert a v).insert c.pc v).get? q = some w →
      c.values.get? q = some w := by
    intro q w hq hqa hw
    rwa [Table.get?_insert_of_ne _ hq, Table.get?_insert_of_ne _ hqa] at hw
  constructor
  · intro h
    refine ⟨h a v s ?_ ?_, h c.pc v t (Table.get?_insert_self _ _ _) types_declared_self⟩
    · exact (Table.get?_insert_of_ne _ ha _).trans (Table.get?_insert_self _ _ _)
    · exact (types_declared ha).trans hs
  · rintro ⟨hvs, hvt⟩ q w r hw hr
    change ((c.values.insert a v).insert c.pc v).get? q = some w at hw
    change (c.counted.declared t).types.get? q = some r at hr
    by_cases hq : q = c.pc
    · subst hq
      rw [Table.get?_insert_self] at hw
      rw [types_declared_self] at hr
      cases hw
      cases hr
      exact hvt
    · rw [types_declared hq] at hr
      by_cases hqa : q = a
      · subst hqa
        rw [Table.get?_insert_of_ne _ hq, Table.get?_insert_self] at hw
        rw [hs] at hr
        cases hw
        cases hr
        exact hvs
      · exact hc q w r (hvalues hq hqa hw) hr

/-- The two operands of a phi. -/
theorem operands_of_phi (hp : p.Accepted) (hu : p.get? c.pc = some u) (hk : u.kind = .phi)
    (hg : gather p u c = .ok ops) {a : Nat} {r : List Nat} (hs : p.valueOperands u = a :: r)
    {o : Operand} (ho : ops[1]? = some o) :
    ∃ b s, r = [b] ∧ c.types.get? a = some s ∧ c.values.get? b = some o.values ∧
      c.types.get? b = some o.type := by
  have harity := hp.arity hu
  rw [hs] at harity
  obtain ⟨b, rfl⟩ : ∃ b, r = [b] := by
    simpa [Program.takes, hk, List.length_eq_one_iff] using harity
  have hall := mapM_eq_ok.mp hg
  rw [hs] at hall
  cases hall with
  | cons ha hall =>
    cases hall with
    | cons hb hall =>
      cases hall with
      | nil =>
        cases ho
        exact ⟨b, _, rfl, (operand_eq_ok.mp ha).2, (operand_eq_ok.mp hb).1, (operand_eq_ok.mp hb).2⟩

/-- A coordinate is either of neither kind or has a value on every lane. -/
theorem scalar_of_special {x : Context} (hk : u.kind = .special)
    (h : produce p u t x ops = .ok d) : u.IsNameless ∨ ∃ l, d = x.define (.scalar l) := by
  unfold produce at h
  rw [hk] at h
  obtain ⟨dim, name, harg, hdim, ⟨-, lanes, -, -, rfl⟩ | ⟨hnone, -, -⟩⟩ := coordinates_of_special h
  · exact .inr ⟨lanes, rfl⟩
  · exact .inl ⟨hk, dim, name, harg, Context.coordinates?_eq_none hdim hnone⟩

/-- A producing instruction leaves a fitting value exactly if it declares the shape
that it makes. -/
theorem Makes.fits_iff (hp : p.Accepted) (hr : c.Regular p) (hc : c.Fits)
    (hu : p.get? c.pc = some u) (hg : gather p u c = .ok ops)
    (hspecial : u.kind = .special → ∃ l, d = (c.counted.declared t).define (.scalar l))
    (hm : Makes p u t (c.counted.declared t) ops d) : d.Fits ↔ p.DeclaresAs u t := by
  have hdefine : ∀ {x : Context} {v : LaneValues}, x.pc = c.pc → x.values = c.values →
      x.types = c.types.insert c.pc t → ((x.define v).Fits ↔ v.Fits t) := hc.define_iff
  unfold Program.DeclaresAs
  cases hm with
  | global hk ht hb =>
    refine Iff.trans (hdefine rfl rfl rfl) ?_
    rw [hk]
    exact iff_true_intro (count_of_bufferFormat ht)
  | scratch hk ht ha =>
    refine Iff.trans (hdefine rfl rfl rfl) ?_
    rw [hk]
    exact iff_true_intro (count_of_bufferFormat ht)
  | launchValue hk hv hw =>
    refine Iff.trans (hdefine rfl rfl rfl) ?_
    rw [hk]
    exact LaneValues.fits_scalar
  | coordinate hk ha hn hl =>
    refine Iff.trans (hdefine rfl rfl rfl) ?_
    rw [hk]
    exact LaneValues.fits_scalar
  | nameless hk hkeep =>
    obtain ⟨l, hl⟩ := hspecial hk
    rw [hl]
    refine Iff.trans (hdefine rfl rfl rfl) ?_
    rw [hk]
    exact LaneValues.fits_scalar
  | literal hk ha hv =>
    refine Iff.trans (hdefine rfl rfl rfl) ?_
    rcases hk with hk | hk
    · rw [hk]
      exact iff_true_intro fits_constant
    · rw [hk]
      exact iff_true_intro fits_constant
  | cast hk hv =>
    refine Iff.trans (hdefine rfl rfl rfl) ?_
    rw [hk]
    exact iff_true_intro (fits_cast hv)
  | load hk hv =>
    refine Iff.trans (hdefine rfl rfl rfl) ?_
    rw [hk]
    exact iff_true_intro (fits_load hv)
  | @carry a r o hk hs ho =>
    obtain ⟨b, s, rfl, hta, hvb, htb⟩ := operands_of_phi hp hu hk hg hs (Operand.require_eq_ok.mp ho)
    have hne : a ≠ c.pc := by
      have := (hp.of_mem_valueOperands hu (hs ▸ List.mem_cons_self)).1
      omega
    have ho : o.values.Fits o.type := hc b o.values o.type hvb htb
    have hiff := hc.carry_iff (v := o.values) (t := t) hne hta
    rw [ho.iff_alike, ho.iff_alike] at hiff
    rw [hk]
    refine hiff.trans ⟨?_, fun h => h a b s o.type hs (hr.declared a s hta) (hr.declared b _ htb)⟩
    intro h a' b' s' t' hs' hta' htb'
    rw [hs] at hs'
    cases hs'
    rw [hr.declared a s hta] at hta'
    rw [hr.declared b _ htb] at htb'
    cases hta'
    cases htb'
    exact h
  | pick hk hv =>
    obtain ⟨-, l, -, -, rfl⟩ := element_of_pick hv
    refine Iff.trans (hdefine rfl rfl rfl) ?_
    rw [hk]
    exact LaneValues.fits_scalar
  | wmma hk hv =>
    refine Iff.trans (hdefine rfl rfl rfl) ?_
    rw [hk]
    exact fits_multiplyAccumulate (hr.lanewise.operands hg) hv
  | alu hk hv =>
    obtain ⟨-, -, l, -, -, -, rfl⟩ := rows_of_arithmetic hv
    refine Iff.trans (hdefine rfl rfl rfl) ?_
    rw [hk]
    exact LaneValues.fits_scalar

/-- Void instructions make nothing. -/
theorem Program.declares_of_void (hu : p.get? c.pc = some u) (hv : u.kind.isVoid = true) :
    p.Declares c.pc := by
  intro u' t hu' ht
  rw [hu] at hu'
  cases hu'
  unfold DeclaresAs
  cases hk : u.kind <;> simp_all [Kind.isVoid]

theorem Program.declares_loop_iff (hu : p.get? c.pc = some u) (hk : u.kind = .loop)
    (ht : u.dtype = some t) : p.Declares c.pc ↔ t.count ≤ 1 := by
  rw [declares_iff hu ht, DeclaresAs, hk]

/-- A step from fitting values leads to fitting values exactly if its instruction
declares the shape that it makes. -/
theorem Steps.fits_iff (hp : p.Accepted) (hr : c.Regular p) (hc : c.Fits) (hs : Steps p c d) :
    d.Fits ↔ p.Declares c.pc := by
  have hsteps := hs
  obtain ⟨c', k, hs, hne, rfl⟩ := hs
  have hfollow : (c'.follow k).Fits ↔ c'.Fits := by
    unfold Context.Fits Context.FitsAt
    rw [Context.follow_values, Context.follow_types]
  rw [hfollow]
  cases fires_of_step hs with
  | halt hu => exact absurd rfl hne
  | close hu hk hsrc =>
    exact iff_of_true hc (Program.declares_of_void hu (by rw [hk]; rfl))
  | @mark u hu hk =>
    refine iff_of_true hc (Program.declares_of_void hu ?_)
    cases hkind : u.kind <;> simp_all [Kind.isMarker, Kind.isVoid]
  | store hu hk hg hw hm =>
    exact iff_of_true hc (Program.declares_of_void hu (by rw [hk]; rfl))
  | produce hu hk hd hg hm =>
    rw [Program.declares_iff hu hd]
    refine Makes.fits_iff hp hr hc hu hg (fun hspecial => ?_) (makes_of_produce hk hm)
    rcases scalar_of_special hspecial hm with hn | hscalar
    · exact absurd hsteps (hn.values_none hu (hr.nameless _ _ hu hn))
    · exact hscalar
  | enter hu hk hd hg hn hv hw =>
    rw [Program.declares_loop_iff hu hk hd]
    exact hc.define_iff rfl rfl rfl
  | again hu hk hd hg hn hi hv hr' =>
    rw [Program.declares_loop_iff hu hk hd]
    exact hc.define_iff rfl rfl rfl
  | @leave u t ops counter next stop e hu hk hd hg hn hi hv hr' he =>
    rw [Program.declares_loop_iff hu hk hd]
    -- the counter that is given up has been a scalar of the declared type
    obtain ⟨s, hts⟩ := Option.ne_none_iff_exists'.mp (hr.typed c.pc (by rw [hn]; simp))
    obtain rfl : s = t := Option.some.inj
      ((hr.declared c.pc s hts).symm.trans (Program.declared?_of_get? hu hd))
    refine iff_of_true (fun q w r hw hr => ?_) (hc c.pc _ s hn hts)
    change (c.values.erase c.pc).get? q = some w at hw
    change (c.counted.declared s).types.get? q = some r at hr
    by_cases hq : q = c.pc
    · subst hq
      rw [Table.get?_erase_self] at hw
      cases hw
    · rw [Table.get?_erase_of_ne _ hq] at hw
      rw [Context.types_declared hq] at hr
      exact hc q w r hw hr

/-! ## Runs -/

theorem Arrives.regular (hp : p.Accepted) (h : Arrives p c₀ o c) (h₀ : c₀.Regular p) :
    c.Regular p := by
  induction h with
  | start => exact h₀
  | step h hs ih => exact hs.regular hp ih

theorem Context.fits_start (point : Point) (warp : Warp) (buffers : List Buffer)
    (launchValues : List Value) : (Context.start point warp buffers launchValues).Fits := by
  intro q v t hv
  cases hv

/-- Throughout the runs of an accepted program every value fits its type, the value
of a vector type being a vector of as many elements and any other value none,
exactly if every instruction that is executed declares the shape that it makes. -/
theorem fits_iff_declares {point : Point} {warp : Warp} {buffers : List Buffer}
    {launchValues : List Value} (hp : p.validate = .ok ()) :
    (∀ o c, Arrives p (.start point warp buffers launchValues) o c → c.Fits) ↔
      ∀ o c d, Arrives p (.start point warp buffers launchValues) o c → Steps p c d →
        p.Declares c.pc := by
  have hacc : p.Accepted := Program.accepted_of_validate hp
  have hregular : ∀ {o c}, Arrives p (.start point warp buffers launchValues) o c → c.Regular p :=
    fun h => h.regular hacc (Context.regular_start _ _ _ _)
  constructor
  · intro hall o c d h hs
    exact (hs.fits_iff hacc (hregular h) (hall o c h)).mp (hall _ d (.step h hs))
  · intro hall o c h
    induction h with
    | start => exact Context.fits_start _ _ _ _
    | @step o x y h hs ih => exact (hs.fits_iff hacc (hregular h) ih).mpr (hall o x y h hs)

/-- Picks an element of a vector and carries it into an accumulator. -/
def Program.carried : Program where
  uops :=
    [⟨.const, some (.vector (.int .int32) 2), [], .literal (.int 5)⟩,
     ⟨.gep, some (.scalar (.int .int32)), [0], .index 1⟩,
     ⟨.defineAcc, some (.scalar (.int .int32)), [], .literal (.int 0)⟩,
     ⟨.phi, some (.scalar (.int .int32)), [2, 1], .none⟩]

theorem Program.declares_carried (pc : Nat) : carried.Declares pc := by
  intro u t hu ht
  match pc with
  | 0 =>
    cases hu
    exact True.intro
  | 1 =>
    cases hu
    cases ht
    exact Nat.le_refl 1
  | 2 =>
    cases hu
    exact True.intro
  | 3 =>
    cases hu
    cases ht
    intro a b s t hs hta htb
    cases hs
    cases hta
    cases htb
    exact ⟨fun _ => rfl, fun _ => rfl⟩
  | n + 4 => cases hu

/-- When `carried` is done all its values fit their types. -/
theorem fits_iff_declares_carried :
    (run .carried 4 (.start ⟨0, 0, 0⟩ ⟨⟨1, 1, 1⟩⟩ [] [])).1.Fits :=
  (fits_iff_declares (by decide)).mpr (fun _ c _ _ _ => Program.declares_carried c.pc) _ _
    (arrives_of_unfinished (n := 3) (by decide))

/-- A launch value that is declared as a vector. -/
def Program.vectorParameter : Program where
  uops := [⟨.defineVar, some (.vector (.int .int32) 4), [], .name "scale"⟩]

/-- The launch value of `vectorParameter` is bound as a scalar, which does not fit
its type. -/
theorem not_fits_vectorParameter :
    Program.vectorParameter.validate = .ok () ∧
      ∃ c, Arrives .vectorParameter
        (.start ⟨0, 0, 0⟩ ⟨⟨1, 1, 1⟩⟩ [] [.int .int32 7]) (some 0) c ∧
        c.values.get? 0 = some (.scalar [.int .int32 7]) ∧
        c.types.get? 0 = some (.vector (.int .int32) 4) ∧ ¬ c.Fits := by
  have h := @arrives_of_unfinished .vectorParameter
    (.start ⟨0, 0, 0⟩ ⟨⟨1, 1, 1⟩⟩ [] [.int .int32 7]) 0 (by decide)
  refine ⟨by decide, _, h, by decide, by decide, fun hfits => ?_⟩
  have hcount : (DType.vector (.int .int32) 4).count ≤ 1 :=
    hfits 0 (.scalar [.int .int32 7]) (.vector (.int .int32) 4) (by decide) (by decide)
  exact absurd hcount (by decide)

end Lockstep
