import Lockstep.Instruction.Compute
import Lockstep.Instruction.Store
import Lockstep.Proofs.Outcome

/-!
# Operands and computations that succeed

What it means that an operand asked for in some form is given, and what a
computation has found and done when it gives a value.
-/

namespace Lockstep

namespace Operand

variable {ops : List Operand} {i j : Nat}

theorem require_eq_ok {pc : Nat} {o : Operand} : require pc ops i = .ok o ↔ ops[i]? = some o := by
  unfold require
  cases ops[i]? with
  | none => simp
  | some o' => simp

theorem scalar_eq_ok {op : Operation} {l : Lanes} :
    scalar op ops i = .ok l ↔ (ops[i]?.bind fun o => o.values.scalar?) = some l := by
  unfold scalar
  cases ops[i]?.bind fun o => o.values.scalar? with
  | none => simp
  | some l' => simp

theorem vector_eq_ok {op : Operation} {es : List Lanes} :
    vector op ops i = .ok es ↔ (ops[i]?.bind fun o => o.values.vector?) = some es := by
  unfold vector
  cases ops[i]?.bind fun o => o.values.vector? with
  | none => simp
  | some es' => simp

theorem element_eq_ok {op : Operation} {l : Lanes} :
    element op ops i j = .ok l ↔ (ops[i]?.bind fun o => o.values.element? j) = some l := by
  unfold element
  cases ops[i]?.bind fun o => o.values.element? j with
  | none => simp
  | some l' => simp

theorem views_eq_ok {a : Access} {v : LaneValues} {vs : List View} :
    views a v = .ok vs ↔ v.buffer? = some vs := by
  unfold views
  cases v.buffer? with
  | none => simp
  | some vs' => simp

theorem coordinates_eq_ok {a : Access} {xs ys : Lanes} :
    coordinates a ops = .ok (xs, ys) ↔
      ∃ r, (ops[1]?.bind fun o => o.values.vector?) = some (xs :: ys :: r) := by
  unfold coordinates
  split
  · rename_i xs' ys' r h
    simp [h]
  · rename_i h
    constructor
    · nofun
    · rintro ⟨r, hr⟩
      exact absurd hr (h xs ys r)

theorem firstLane_eq_ok {pc : Nat} {v : Value} :
    firstLane pc ops i = .ok v ↔
      (ops[i]?.bind fun o => o.values.scalar?.bind List.head?) = some v := by
  unfold firstLane
  rw [bind_eq_ok]
  simp only [require_eq_ok, Option.bind_eq_some_iff]
  refine exists_congr fun o => and_congr_right fun _ => ?_
  cases o.values.scalar? with
  | none => simp [throw, throwThe, MonadExceptOf.throw]
  | some l => cases l <;> simp [pure, Except.pure, throw, throwThe, MonadExceptOf.throw]

/-- Scalars are given when every operand is one. -/
theorem scalars_eq_ok {op : Operation} {rows : List Lanes} :
    scalars op ops = .ok rows ↔ List.Forall₂ (fun o l => o.values.scalar? = some l) ops rows := by
  unfold scalars
  rw [mapM_eq_ok]
  conv_rhs => rw [← List.zipIdx_map_fst 0 ops, List.forall₂_map_left_iff]
  constructor
  · refine List.Forall₂.imp fun (o, k) l h => ?_
    dsimp only at h
    split at h
    · rename_i l' hl'
      cases h
      exact hl'
    · cases h
  · refine List.Forall₂.imp fun (o, k) l h => ?_
    dsimp only at h ⊢
    rw [h]

end Operand

/-! ## Computations -/

/-- The casts that give a value: what a vector is made of, or a scalar. -/
inductive Casts (d : DType) (ops : List Operand) : LaneValues → Prop where
  | repack {es : List Lanes} {t : DType} (hd : d.isVector = true) (ho : ops = [⟨.vector es, t⟩])
      (hn : es.length = d.count) : Casts d ops (.vector es)
  | pack {rows : List Lanes} (hd : d.isVector = true) (hn : ops.length = d.count)
      (hr : Operand.scalars .cast ops = .ok rows) : Casts d ops (.vector rows)
  | convert {l r : Lanes} (hd : d.isVector = false) (hl : Operand.scalar .cast ops 0 = .ok l)
      (hr : convertLanes l d.element = .ok r) : Casts d ops (.scalar r)
  /-- some lane cannot be converted -/
  | keep {l : Lanes} {e : ConvertError} (hd : d.isVector = false)
      (hl : Operand.scalar .cast ops 0 = .ok l) (he : convertLanes l d.element = .error e) :
      Casts d ops (.scalar l)

/-- The loads that give a value. -/
inductive Loads (m : Memory) (d : DType) (ops : List Operand) : LaneValues → Prop where
  | texels {o : Operand} {r : List Operand} {views : List View} {height width : Nat}
      {xs ys : Lanes} {es : List Lanes} (ho : ops = o :: r) (hv : o.values.buffer? = some views)
      (hs : o.type.shape? = some (height, width)) (hn : d.count = Memory.channels)
      (hc : Operand.coordinates .load ops = .ok (xs, ys))
      (he : m.loadImage views height width xs ys = .ok es) : Loads m d ops (.vector es)
  | vector {o : Operand} {r : List Operand} {views : List View} {es : List Lanes}
      (ho : ops = o :: r) (hv : o.values.buffer? = some views) (hs : o.type.shape? = none)
      (hd : d.isVector = true) (he : loadElements m views ops 0 d.count = .ok es) :
      Loads m d ops (.vector es)
  | scalar {o : Operand} {r : List Operand} {views : List View} {l : Lanes}
      (ho : ops = o :: r) (hv : o.values.buffer? = some views) (hs : o.type.shape? = none)
      (hd : d.isVector = false) (hl : loadElement m views ops 0 = .ok l) :
      Loads m d ops (.scalar l)

section

variable {pc : Nat} {d : DType} {ops : List Operand} {v : LaneValues}

theorem casts_of_cast (h : cast pc d ops = .ok v) : Casts d ops v := by
  unfold cast at h
  split at h
  · rename_i hd
    unfold castVector at h
    split at h
    · split at h
      · rename_i hn
        cases h
        exact .repack hd rfl hn
      · cases h
    · split at h
      · rename_i hn
        obtain ⟨rows, hr, rfl⟩ := map_eq_ok.mp h
        exact .pack hd hn hr
      · cases h
  · rename_i hd
    have hd := Bool.eq_false_iff.mpr hd
    obtain ⟨l, hl, h⟩ := bind_eq_ok.mp h
    split at h
    · rename_i r hr
      cases h
      exact .convert hd hl hr
    · rename_i e he
      cases h
      exact .keep hd hl he

theorem loads_of_load {m : Memory} (h : load m d ops = .ok v) : Loads m d ops v := by
  cases ops with
  | nil => cases h
  | cons o r =>
    obtain ⟨views, hv, h⟩ := bind_eq_ok.mp h
    have hv := Operand.views_eq_ok.mp hv
    split at h
    · rename_i height width hs
      unfold loadTexels at h
      split at h
      · cases h
      · rename_i hn
        obtain ⟨⟨xs, ys⟩, hc, h⟩ := bind_eq_ok.mp h
        obtain ⟨es, he, rfl⟩ := map_eq_ok.mp h
        exact .texels rfl hv hs (Decidable.not_not.mp hn) hc he
    · rename_i hs
      unfold loadLinear at h
      split at h
      · rename_i hd
        obtain ⟨es, he, rfl⟩ := map_eq_ok.mp h
        exact .vector rfl hv hs hd he
      · rename_i hd
        obtain ⟨l, hl, rfl⟩ := map_eq_ok.mp h
        exact .scalar rfl hv hs (Bool.eq_false_iff.mpr hd) hl

/-- The choice of an element, when there is one. -/
theorem element_of_pick {arg : Arg} (h : pick pc arg ops = .ok v) :
    ∃ k l, arg = .index k ∧
      (ops[0]?.bind fun o => o.values.vector?.bind (·[k]?)) = some l ∧ v = .scalar l := by
  unfold pick at h
  split at h
  · rename_i k
    obtain ⟨o, ho, h⟩ := bind_eq_ok.mp h
    split at h
    · rename_i l hl
      cases h
      exact ⟨k, l, rfl, Option.bind_eq_some_iff.mpr ⟨o, Operand.require_eq_ok.mp ho, hl⟩, rfl⟩
    · cases h
  · cases h

theorem core_of_multiplyAccumulate {arg : Arg} (h : multiplyAccumulate pc d arg ops = .ok v) :
    ∃ tag core a b c es, arg = .tag tag ∧ TensorCore.ofTag tag = .ok core ∧
      Operand.vector .wmma ops 0 = .ok a ∧ Operand.vector .wmma ops 1 = .ok b ∧
      Operand.vector .wmma ops 2 = .ok c ∧ core.execute a b c d.element = .ok es ∧
      v = .vector es := by
  unfold multiplyAccumulate at h
  split at h
  · rename_i tag
    obtain ⟨core, hcore, h⟩ := bind_eq_ok.mp h
    obtain ⟨a, ha, h⟩ := bind_eq_ok.mp h
    obtain ⟨b, hb, h⟩ := bind_eq_ok.mp h
    obtain ⟨c, hc, h⟩ := bind_eq_ok.mp h
    obtain ⟨es, hes, rfl⟩ := map_eq_ok.mp h
    exact ⟨tag, core, a, b, c, es, rfl, hcore, ha, hb, hc, hes, rfl⟩
  · cases h

theorem leadingCount_eq {rows : List Lanes} {n : Nat} (hne : rows ≠ [])
    (h : ∀ l ∈ rows, l.length = n) : leadingCount rows = n := by
  obtain ⟨l, r, rfl⟩ := List.exists_cons_of_ne_nil hne
  exact h l List.mem_cons_self

/-- Arithmetic works lane by lane on rows of scalars. -/
theorem rows_of_arithmetic {arg : Arg} (h : arithmetic pc d arg ops = .ok v) :
    ∃ op rows l, arg = .operation op ∧ Operand.scalars (.alu op) ops = .ok rows ∧
      (List.range (leadingCount rows)).mapM
        (fun n => Alu.execute op d.element (laneArguments rows n)) = .ok l ∧ v = .scalar l := by
  unfold arithmetic at h
  split at h
  · rename_i op
    obtain ⟨rows, hrows, h⟩ := bind_eq_ok.mp h
    dsimp only at h
    split at h
    · cases h
    · split at h
      · cases h
      · obtain ⟨l, hl, h⟩ := bind_eq_ok.mp h
        cases h
        exact ⟨op, rows, l, rfl, hrows, hl, rfl⟩
  · cases h

end

/-! ## The target of a store -/

section

variable {views : List View} {offsets : Lanes} {elements : List Lanes} {w : Write}

theorem Memory.view_mem_of_writes {values : Lanes} {delta : Int}
    (h : w ∈ Memory.writes views offsets values delta) : w.view ∈ views := by
  obtain ⟨⟨v, o, x⟩, hmem, rfl⟩ := List.mem_map.mp h
  exact (List.of_mem_zip hmem).1

theorem Memory.view_mem_of_vectorWrites (h : w ∈ Memory.vectorWrites views offsets elements) :
    w.view ∈ views := by
  obtain ⟨⟨values, j⟩, -, hw⟩ := List.mem_flatMap.mp h
  exact view_mem_of_writes hw

theorem Memory.view_mem_of_imageWrites {height width : Nat} {xs ys : Lanes} {ws : List Write}
    (h : Memory.imageWrites views height width xs ys elements = .ok ws) (hw : w ∈ ws) :
    w.view ∈ views := by
  unfold Memory.imageWrites at h
  split at h
  · cases h
  · cases h
    obtain ⟨⟨values, j⟩, -, hw⟩ := List.mem_flatMap.mp hw
    obtain ⟨⟨v, ⟨x, y⟩, a⟩, hmem, rfl⟩ := List.mem_map.mp hw
    exact (List.of_mem_zip hmem).1

theorem view_mem_of_texelStore {height width : Nat} {ops : List Operand} {value : Operand}
    {ws : List Write} (h : texelStore views height width ops value = .ok ws) (hw : w ∈ ws) :
    w.view ∈ views := by
  unfold texelStore at h
  split at h
  · cases h
  · obtain ⟨⟨xs, ys⟩, -, h⟩ := bind_eq_ok.mp h
    obtain ⟨elements, -, h⟩ := bind_eq_ok.mp h
    exact Memory.view_mem_of_imageWrites h hw

theorem view_mem_of_linearStore {ops : List Operand} {value : Operand} {ws : List Write}
    (h : linearStore views ops value = .ok ws) (hw : w ∈ ws) : w.view ∈ views := by
  obtain ⟨offsets, -, h⟩ := bind_eq_ok.mp h
  split at h
  · obtain ⟨elements, -, h⟩ := bind_eq_ok.mp h
    cases h
    exact Memory.view_mem_of_vectorWrites hw
  · obtain ⟨values, -, h⟩ := bind_eq_ok.mp h
    cases h
    exact Memory.view_mem_of_writes hw

/-- A store writes through the views that its first operand holds. -/
theorem view_mem_of_storeWrites {pc : Nat} {ops : List Operand} {ws : List Write}
    (h : storeWrites pc ops = .ok ws) (hw : w ∈ ws) :
    ∃ o r views, ops = o :: r ∧ o.values = .buffer views ∧ w.view ∈ views := by
  unfold storeWrites at h
  split at h
  · rename_i target offset value
    obtain ⟨views, hviews, h⟩ := bind_eq_ok.mp h
    refine ⟨target, _, views, rfl, ?_, ?_⟩
    · unfold Operand.views at hviews
      cases hv : target.values with
      | buffer vs =>
        rw [hv] at hviews
        cases hviews
        rfl
      | scalar l =>
        rw [hv] at hviews
        cases hviews
      | vector es =>
        rw [hv] at hviews
        cases hviews
    · split at h
      · exact view_mem_of_texelStore h hw
      · exact view_mem_of_linearStore h hw
  · split at h
    · cases h
    · cases h

end

end Lockstep
