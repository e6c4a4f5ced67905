import Lockstep.Proofs.Step.Cases

/-!
# What a producing instruction leaves

`Makes` lists, kind by kind, the contexts in which a producing instruction can
end. From it follow the entries of the table of values that it may change and
the parts of the context that it never changes.
-/

namespace Lockstep

/-- The instruction makes the second context out of the first. -/
inductive Makes (p : Program) (u : Uop) (d : DType) (c : Context) (ops : List Operand) :
    Context → Prop where
  | global {t : ScalarType} {view : View} {m : Memory} (hk : u.kind = .defineGlobal)
      (ht : bufferFormat c.pc d = .ok t) (hb : c.memory.bind? t = some (.ok view, m)) :
      Makes p u d c ops (Context.define { c with memory := m } (.buffer (c.warp.splat view)))
  | scratch {t : ScalarType} {name : String} {size : Nat} (hk : u.kind = .defineLocal)
      (ht : bufferFormat c.pc d = .ok t) (ha : u.arg = .buffer name size) :
      Makes p u d c ops (Context.define { c with memory := (c.memory.allocate t size).2 }
        (.buffer (c.warp.splat (c.memory.allocate t size).1)))
  | launchValue {v w : Value} (hk : u.kind = .defineVar)
      (hv : c.launchValues[c.bound]? = some v) (hw : v.convert d.element = .ok w) :
      Makes p u d c ops (Context.define { c with bound := c.bound + 1 } (.scalar (c.warp.splat w)))
  | coordinate {dim : Nat} {name : String} {ns : List Nat} {lanes : Lanes}
      (hk : u.kind = .special) (ha : u.arg = .axis dim name)
      (hn : c.coordinates? dim name = some ns)
      (hl : ns.mapM (fun (n : Nat) => conversion (Value.ofInt n d.element)) = .ok lanes) :
      Makes p u d c ops (c.define (.scalar lanes))
  /-- a name of neither kind leaves the value that is there -/
  | nameless (hk : u.kind = .special) (hc : c.values.contains c.pc = true) : Makes p u d c ops c
  | literal {l : Literal} {v : Value} (hk : u.kind = .const ∨ u.kind = .defineAcc)
      (ha : u.arg = .literal l) (hv : l.toValue d.element = .ok v) :
      Makes p u d c ops (c.define (if d.isVector then
        .vector (List.replicate d.count (c.warp.splat v)) else .scalar (c.warp.splat v)))
  | cast {v : LaneValues} (hk : u.kind = .cast) (hv : cast c.pc d ops = .ok v) :
      Makes p u d c ops (c.define v)
  | load {v : LaneValues} (hk : u.kind = .load) (hv : load c.memory d ops = .ok v) :
      Makes p u d c ops (c.define v)
  | carry {a : Nat} {r : List Nat} {o : Operand} (hk : u.kind = .phi)
      (hs : p.valueOperands u = a :: r) (ho : Operand.require c.pc ops 1 = .ok o) :
      Makes p u d c ops (Context.define { c with values := c.values.insert a o.values } o.values)
  | pick {v : LaneValues} (hk : u.kind = .gep) (hv : pick c.pc u.arg ops = .ok v) :
      Makes p u d c ops (c.define v)
  | wmma {v : LaneValues} (hk : u.kind = .wmma)
      (hv : multiplyAccumulate c.pc d u.arg ops = .ok v) : Makes p u d c ops (c.define v)
  | alu {v : LaneValues} (hk : u.kind = .alu) (hv : arithmetic c.pc d u.arg ops = .ok v) :
      Makes p u d c ops (c.define v)

variable {p : Program} {u : Uop} {d : DType} {c c' : Context} {ops : List Operand}

theorem conversion_eq_ok {r : Except ConvertError Value} {v : Value} :
    conversion r = .ok v ↔ r = .ok v := mapError_eq_ok

/-! ## Definitions that succeed -/

theorem view_of_defineGlobal (h : c.defineGlobal d = .ok c') :
    ∃ t view m, bufferFormat c.pc d = .ok t ∧ c.memory.bind? t = some (.ok view, m) ∧
      c' = Context.define { c with memory := m } (.buffer (c.warp.splat view)) := by
  obtain ⟨t, ht, h⟩ := bind_eq_ok.mp h
  cases hb : c.memory.bind? t with
  | none => rw [hb] at h; cases h
  | some r =>
    obtain ⟨r, m⟩ := r
    rw [hb] at h
    obtain ⟨view, rfl, h⟩ := bind_eq_ok.mp h
    cases h
    exact ⟨t, view, m, ht, hb, rfl⟩

theorem view_of_defineLocal {arg : Arg} (h : c.defineLocal d arg = .ok c') :
    ∃ t name size, bufferFormat c.pc d = .ok t ∧ arg = .buffer name size ∧
      c' = Context.define { c with memory := (c.memory.allocate t size).2 }
        (.buffer (c.warp.splat (c.memory.allocate t size).1)) := by
  obtain ⟨t, ht, h⟩ := bind_eq_ok.mp h
  cases arg with
  | buffer name size =>
    cases h
    exact ⟨t, name, size, ht, rfl, rfl⟩
  | _ => cases h

theorem value_of_defineVar (h : c.defineVar d = .ok c') :
    ∃ v w, c.launchValues[c.bound]? = some v ∧ v.convert d.element = .ok w ∧
      c' = Context.define { c with bound := c.bound + 1 } (.scalar (c.warp.splat w)) := by
  unfold Context.defineVar at h
  cases hv : c.launchValues[c.bound]? with
  | none => rw [hv] at h; cases h
  | some v =>
    rw [hv] at h
    obtain ⟨w, hw, h⟩ := bind_eq_ok.mp h
    cases h
    exact ⟨v, w, rfl, conversion_eq_ok.mp hw, rfl⟩

/-- A coordinate is defined, or there is none and a value is there already. -/
theorem coordinates_of_special {arg : Arg} (h : c.special d arg = .ok c') :
    ∃ dim name, arg = .axis dim name ∧ dim < 3 ∧
      ((∃ ns lanes, c.coordinates? dim name = some ns ∧
          ns.mapM (fun (n : Nat) => conversion (Value.ofInt n d.element)) = .ok lanes ∧
          c' = c.define (.scalar lanes)) ∨
        c.coordinates? dim name = none ∧ c.values.contains c.pc = true ∧ c' = c) := by
  unfold Context.special at h
  split at h
  · rename_i dim name
    split at h
    · cases h
    · rename_i hdim
      refine ⟨dim, name, rfl, Nat.lt_of_not_le hdim, ?_⟩
      split at h
      · rename_i ns hn
        obtain ⟨lanes, hl, h⟩ := bind_eq_ok.mp h
        cases h
        exact .inl ⟨ns, lanes, hn, hl, rfl⟩
      · rename_i hn
        split at h
        · rename_i hc
          cases h
          exact .inr ⟨hn, hc, rfl⟩
        · cases h
  · cases h

theorem literal_of_constant {arg : Arg} (h : c.constant d arg = .ok c') :
    ∃ l v, arg = .literal l ∧ l.toValue d.element = .ok v ∧
      c' = c.define (if d.isVector then .vector (List.replicate d.count (c.warp.splat v))
        else .scalar (c.warp.splat v)) := by
  unfold Context.constant at h
  cases arg with
  | literal l =>
    obtain ⟨v, hv, h⟩ := bind_eq_ok.mp h
    cases h
    exact ⟨l, v, rfl, conversion_eq_ok.mp hv, rfl⟩
  | _ => cases h

theorem operand_of_carry (h : carry p u c ops = .ok c') :
    ∃ a r o, p.valueOperands u = a :: r ∧ Operand.require c.pc ops 1 = .ok o ∧
      c' = Context.define { c with values := c.values.insert a o.values } o.values := by
  unfold carry at h
  cases hs : p.valueOperands u with
  | nil => rw [hs] at h; cases h
  | cons a r =>
    rw [hs] at h
    obtain ⟨o, ho, h⟩ := bind_eq_ok.mp h
    cases h
    exact ⟨a, r, o, rfl, ho, rfl⟩

/-- `Makes` covers every kind that produces a value. -/
theorem makes_of_produce (hk : u.kind.isProducer = true) (h : produce p u d c ops = .ok c') :
    Makes p u d c ops c' := by
  unfold produce at h
  split at h
  · obtain ⟨t, view, m, ht, hb, rfl⟩ := view_of_defineGlobal h
    exact .global ‹_› ht hb
  · obtain ⟨t, name, size, ht, ha, rfl⟩ := view_of_defineLocal h
    exact .scratch ‹_› ht ha
  · obtain ⟨v, w, hv, hw, rfl⟩ := value_of_defineVar h
    exact .launchValue ‹_› hv hw
  · obtain ⟨dim, name, ha, -, ⟨ns, lanes, hn, hl, rfl⟩ | ⟨-, hc, rfl⟩⟩ := coordinates_of_special h
    · exact .coordinate ‹_› ha hn hl
    · exact .nameless ‹_› hc
  · obtain ⟨l, v, ha, hv, rfl⟩ := literal_of_constant h
    exact .literal (.inl ‹_›) ha hv
  · obtain ⟨l, v, ha, hv, rfl⟩ := literal_of_constant h
    exact .literal (.inr ‹_›) ha hv
  · obtain ⟨v, hv, rfl⟩ := map_eq_ok.mp h
    exact .cast ‹_› hv
  · obtain ⟨v, hv, rfl⟩ := map_eq_ok.mp h
    exact .load ‹_› hv
  · obtain ⟨a, r, o, hs, ho, rfl⟩ := operand_of_carry h
    exact .carry ‹_› hs ho
  · obtain ⟨v, hv, rfl⟩ := map_eq_ok.mp h
    exact .pick ‹_› hv
  · obtain ⟨v, hv, rfl⟩ := map_eq_ok.mp h
    exact .wmma ‹_› hv
  · obtain ⟨v, hv, rfl⟩ := map_eq_ok.mp h
    exact .alu ‹_› hv
  all_goals simp_all [Kind.isProducer, Kind.isVoid]

/-- An instruction that produces a value has made it and goes on to the next. -/
theorem Fires.makes {k : Control} (h : Fires p c c' k) (hu : p.get? c.pc = some u)
    (hk : u.kind.isProducer = true) :
    ∃ t ops, u.dtype = some t ∧ gather p u c = .ok ops ∧
      Makes p u t (c.counted.declared t) ops c' ∧ k = .proceed := by
  have hother : ∀ {v : Uop}, p.get? c.pc = some v → v.kind.isProducer = false → False := by
    intro v hv hf
    rw [hu] at hv
    cases hv
    rw [hk] at hf
    cases hf
  cases h with
  | halt hn =>
    rw [hu] at hn
    cases hn
  | close hv hkind hs => exact (hother hv (by simp [hkind, Kind.isProducer, Kind.isVoid])).elim
  | @mark v hv hmark =>
    refine (hother hv ?_).elim
    cases hkind : v.kind <;> simp_all [Kind.isProducer, Kind.isMarker, Kind.isVoid]
  | store hv hkind hg hw hm => exact (hother hv (by simp [hkind, Kind.isProducer, Kind.isVoid])).elim
  | produce hv hprod hd hg hp =>
    rw [hu] at hv
    cases hv
    exact ⟨_, _, hd, hg, makes_of_produce hprod hp, rfl⟩
  | enter hv hkind => exact (hother hv (by simp [hkind, Kind.isProducer])).elim
  | again hv hkind => exact (hother hv (by simp [hkind, Kind.isProducer])).elim
  | leave hv hkind => exact (hother hv (by simp [hkind, Kind.isProducer])).elim

/-- The kinds that bind, allocate or write buffers. -/
def Kind.changesMemory : Kind → Bool
  | defineGlobal | defineLocal | store => true
  | _ => false

/-- The position is where the instruction leaves its value: its own, or for a
phi also that of the accumulator. -/
def Program.Defines (p : Program) (u : Uop) (pc q : Nat) : Prop :=
  q = pc ∨ u.kind = .phi ∧ (p.valueOperands u).head? = some q

namespace Makes

theorem pc_eq (h : Makes p u d c ops c') : c'.pc = c.pc := by
  cases h <;> rfl

theorem warp_eq (h : Makes p u d c ops c') : c'.warp = c.warp := by
  cases h <;> rfl

theorem types_eq (h : Makes p u d c ops c') : c'.types = c.types := by
  cases h <;> rfl

theorem loopEnds_eq (h : Makes p u d c ops c') : c'.loopEnds = c.loopEnds := by
  cases h <;> rfl

theorem instructions_eq (h : Makes p u d c ops c') : c'.instructions = c.instructions := by
  cases h <;> rfl

/-- Only definitions of buffers change the memory. -/
theorem memory_eq (h : Makes p u d c ops c') (hk : u.kind.changesMemory = false) :
    c'.memory = c.memory := by
  cases h with
  | global hk' ht hb => simp [hk', Kind.changesMemory] at hk
  | scratch hk' ht ha => simp [hk', Kind.changesMemory] at hk
  | _ => rfl

/-- No other entry of the table of values changes. -/
theorem values_eq (h : Makes p u d c ops c') {q : Nat} (hq : ¬ p.Defines u c.pc q) :
    c'.values.get? q = c.values.get? q := by
  have hne : q ≠ c.pc := fun he => hq (.inl he)
  cases h with
  | nameless hk hc => rfl
  | @carry a r o hk hs ho =>
    have ha : q ≠ a := fun he => hq (.inr ⟨hk, by rw [hs, he]; rfl⟩)
    rw [Context.define_values]
    exact (Table.get?_insert_of_ne _ hne _).trans (Table.get?_insert_of_ne _ ha _)
  | _ => exact Table.get?_insert_of_ne _ hne _

/-- No entry of the table of values is lost. -/
theorem values_mono (h : Makes p u d c ops c') {q : Nat} (hq : c.values.get? q ≠ none) :
    c'.values.get? q ≠ none := by
  by_cases he : q = c.pc
  · subst he
    cases h with
    | nameless hk hc => exact hq
    | _ => rw [Context.define_values]; simp
  · cases h with
    | nameless hk hc => exact hq
    | @carry a r o hk hs ho =>
      rw [Context.define_values, Table.get?_insert_of_ne _ he]
      by_cases ha : q = a
      · subst ha
        simp
      · rwa [Table.get?_insert_of_ne _ ha]
    | _ => rw [Context.define_values]; rwa [Table.get?_insert_of_ne _ he]

end Makes

end Lockstep
