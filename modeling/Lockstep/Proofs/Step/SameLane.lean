import Lockstep.Proofs.Step.Compute
import Lockstep.Proofs.Step.Produce

/-!
# One lane of a computation

What a computation gives on one lane depends on the lanes of its operands at the
same place only. So two computations with operands that agree there, each with a
number of lanes of its own, agree there as well. Multiplication on tensor cores
is the exception, and so is a cast of scalars, which looks at all lanes before
it converts any.
-/

namespace Lockstep

/-- Place `i` of the first list and place `j` of the second hold the same. -/
def SameAt {α : Type} (i j : Nat) (l l' : List α) : Prop :=
  ∃ a, l[i]? = some a ∧ l'[j]? = some a

namespace SameAt

variable {α β : Type} {i j : Nat}

theorem replicate {n n' : Nat} (hi : i < n) (hj : j < n') (a : α) :
    SameAt i j (List.replicate n a) (List.replicate n' a) :=
  ⟨a, List.getElem?_replicate_of_lt hi, List.getElem?_replicate_of_lt hj⟩

theorem zip {l l' : List α} {r r' : List β} (h : SameAt i j l l') (hr : SameAt i j r r') :
    SameAt i j (l.zip r) (l'.zip r') := by
  obtain ⟨a, ha, ha'⟩ := h
  obtain ⟨b, hb, hb'⟩ := hr
  exact ⟨(a, b), List.getElem?_zip_eq_some.mpr ⟨ha, hb⟩, List.getElem?_zip_eq_some.mpr ⟨ha', hb'⟩⟩

theorem map {l l' : List α} (h : SameAt i j l l') (f : α → β) : SameAt i j (l.map f) (l'.map f) := by
  obtain ⟨a, ha, ha'⟩ := h
  exact ⟨f a, by rw [List.getElem?_map, ha]; rfl, by rw [List.getElem?_map, ha']; rfl⟩

/-- Traversals agree where their lists do. -/
theorem mapM {ε : Type} {f : α → Except ε β} {l l' : List α} {r r' : List β}
    (h : SameAt i j l l') (hr : l.mapM f = .ok r) (hr' : l'.mapM f = .ok r') :
    SameAt i j r r' := by
  obtain ⟨a, ha, ha'⟩ := h
  obtain ⟨b, hb, hfb⟩ := getElem?_of_mapM hr ha
  obtain ⟨b', hb', hfb'⟩ := getElem?_of_mapM hr' ha'
  obtain rfl : b = b' := Except.ok.inj (hfb.symm.trans hfb')
  exact ⟨b, hb, hb'⟩

end SameAt

/-- Two values of one shape are the same at lane `i` of the first and lane `j` of
the second. -/
inductive LaneValues.SameAt (i j : Nat) : LaneValues → LaneValues → Prop where
  | scalar {l l' : Lanes} (h : Lockstep.SameAt i j l l') : SameAt i j (.scalar l) (.scalar l')
  | vector {es es' : List Lanes} (h : List.Forall₂ (Lockstep.SameAt i j) es es') :
      SameAt i j (.vector es) (.vector es')
  | buffer {vs vs' : List View} (h : Lockstep.SameAt i j vs vs') :
      SameAt i j (.buffer vs) (.buffer vs')

/-- Operands of one type whose values are the same at two lanes. -/
structure Operand.SameAt (i j : Nat) (o o' : Operand) : Prop where
  values : o.values.SameAt i j o'.values
  type : o.type = o'.type

variable {i j : Nat}

namespace LaneValues.SameAt

variable {v v' : LaneValues}

theorem isSome_scalar? (h : v.SameAt i j v') : v.scalar?.isSome = v'.scalar?.isSome := by
  cases h <;> rfl

theorem scalar? {l l' : Lanes} (h : v.SameAt i j v') (hl : v.scalar? = some l)
    (hl' : v'.scalar? = some l') : Lockstep.SameAt i j l l' := by
  cases h with
  | scalar h =>
    cases hl
    cases hl'
    exact h
  | vector h => cases hl
  | buffer h => cases hl

theorem vector? {es es' : List Lanes} (h : v.SameAt i j v') (hes : v.vector? = some es)
    (hes' : v'.vector? = some es') : List.Forall₂ (Lockstep.SameAt i j) es es' := by
  cases h with
  | scalar h => cases hes
  | vector h =>
    cases hes
    cases hes'
    exact h
  | buffer h => cases hes

theorem buffer? {vs vs' : List View} (h : v.SameAt i j v') (hvs : v.buffer? = some vs)
    (hvs' : v'.buffer? = some vs') : Lockstep.SameAt i j vs vs' := by
  cases h with
  | scalar h => cases hvs
  | vector h => cases hvs
  | buffer h =>
    cases hvs
    cases hvs'
    exact h

theorem element? {k : Nat} {l l' : Lanes} (h : v.SameAt i j v') (hl : v.element? k = some l)
    (hl' : v'.element? k = some l') : Lockstep.SameAt i j l l' := by
  cases h with
  | scalar h =>
    cases hl
    cases hl'
    exact h
  | vector h =>
    obtain ⟨hk, rfl⟩ := List.getElem?_eq_some_iff.mp hl
    obtain ⟨hk', rfl⟩ := List.getElem?_eq_some_iff.mp hl'
    exact h.get hk hk'
  | buffer h => cases hl

end LaneValues.SameAt

section

variable {ops ops' : List Operand} (hops : List.Forall₂ (Operand.SameAt i j) ops ops')
include hops

/-! ## Operands -/

namespace Operand

/-- What two lists of operands give in some form comes from values that are the
same at the two lanes. -/
theorem sameAt_of_bind {α : Type} {k : Nat} {f : LaneValues → Option α} {a a' : α}
    (h : (ops[k]?.bind fun o => f o.values) = some a)
    (h' : (ops'[k]?.bind fun o => f o.values) = some a') :
    ∃ v v' : LaneValues, v.SameAt i j v' ∧ f v = some a ∧ f v' = some a' := by
  obtain ⟨o, ho, hf⟩ := Option.bind_eq_some_iff.mp h
  obtain ⟨o', ho', hf'⟩ := Option.bind_eq_some_iff.mp h'
  obtain ⟨hk, rfl⟩ := List.getElem?_eq_some_iff.mp ho
  obtain ⟨hk', rfl⟩ := List.getElem?_eq_some_iff.mp ho'
  exact ⟨_, _, (hops.get hk hk').values, hf, hf'⟩

theorem sameAt_require {pc k : Nat} {o o' : Operand} (h : require pc ops k = .ok o)
    (h' : require pc ops' k = .ok o') : o.SameAt i j o' := by
  obtain ⟨hk, rfl⟩ := List.getElem?_eq_some_iff.mp (require_eq_ok.mp h)
  obtain ⟨hk', rfl⟩ := List.getElem?_eq_some_iff.mp (require_eq_ok.mp h')
  exact hops.get hk hk'

theorem sameAt_element {op : Operation} {k n : Nat} {l l' : Lanes}
    (h : element op ops k n = .ok l) (h' : element op ops' k n = .ok l') :
    Lockstep.SameAt i j l l' := by
  obtain ⟨v, v', hv, hl, hl'⟩ := sameAt_of_bind hops (element_eq_ok.mp h) (element_eq_ok.mp h')
  exact hv.element? hl hl'

theorem sameAt_coordinates {a : Access} {xs xs' ys ys' : Lanes}
    (h : coordinates a ops = .ok (xs, ys)) (h' : coordinates a ops' = .ok (xs', ys')) :
    Lockstep.SameAt i j xs xs' ∧ Lockstep.SameAt i j ys ys' := by
  obtain ⟨r, hr⟩ := coordinates_eq_ok.mp h
  obtain ⟨r', hr'⟩ := coordinates_eq_ok.mp h'
  obtain ⟨v, v', hv, hes, hes'⟩ := sameAt_of_bind hops hr hr'
  obtain ⟨hx, hrest⟩ := List.forall₂_cons.mp (hv.vector? hes hes')
  exact ⟨hx, (List.forall₂_cons.mp hrest).1⟩

theorem sameAt_scalars {op : Operation} {rows rows' : List Lanes} (h : scalars op ops = .ok rows)
    (h' : scalars op ops' = .ok rows') : List.Forall₂ (Lockstep.SameAt i j) rows rows' :=
  forall₂_images hops (scalars_eq_ok.mp h) (scalars_eq_ok.mp h')
    fun _ _ _ _ ho hl hl' => ho.values.scalar? hl hl'

omit hops in
/-- The value on the first lane is the same if the operands are the same there. -/
theorem firstLane_eq {pc pc' k : Nat} {v v' : Value}
    (hops : List.Forall₂ (Operand.SameAt 0 0) ops ops') (h : firstLane pc ops k = .ok v)
    (h' : firstLane pc' ops' k = .ok v') : v = v' := by
  obtain ⟨x, x', hx, hf, hf'⟩ := sameAt_of_bind (f := fun x => x.scalar?.bind List.head?) hops
    (firstLane_eq_ok.mp h) (firstLane_eq_ok.mp h')
  obtain ⟨l, hl, hhead⟩ := Option.bind_eq_some_iff.mp hf
  obtain ⟨l', hl', hhead'⟩ := Option.bind_eq_some_iff.mp hf'
  obtain ⟨a, ha, ha'⟩ := hx.scalar? hl hl'
  rw [List.head?_eq_getElem?, ha] at hhead
  rw [List.head?_eq_getElem?, ha'] at hhead'
  exact Option.some.inj (hhead.symm.trans hhead')

end Operand

/-! ## Computations -/

variable {pc : Nat} {d : DType} {v v' : LaneValues}

/-- Both casts repack their only operand, or both pack as many scalars: what the
one finds to be a vector is no scalar to the other. -/
theorem sameAt_cast (hd : d.isVector = true) (h : cast pc d ops = .ok v)
    (h' : cast pc d ops' = .ok v') : v.SameAt i j v' := by
  cases casts_of_cast h with
  | convert hd' => cases hd.symm.trans hd'
  | keep hd' => cases hd.symm.trans hd'
  | repack _ ho hn =>
    subst ho
    obtain ⟨o', r', ho, -, rfl⟩ := List.forall₂_cons_left_iff.mp hops
    cases casts_of_cast h' with
    | convert hd' => cases hd.symm.trans hd'
    | keep hd' => cases hd.symm.trans hd'
    | repack _ ho' hn' =>
      cases ho'
      exact ho.values
    | pack _ hn' hr' =>
      obtain ⟨l, -, hl, -, -⟩ := List.forall₂_cons_left_iff.mp (Operand.scalars_eq_ok.mp hr')
      have hsome := ho.values.isSome_scalar?
      rw [hl] at hsome
      cases hsome
  | pack _ hn hr =>
    cases casts_of_cast h' with
    | convert hd' => cases hd.symm.trans hd'
    | keep hd' => cases hd.symm.trans hd'
    | repack _ ho' hn' =>
      subst ho'
      obtain ⟨o, r, ho, -, rfl⟩ := List.forall₂_cons_right_iff.mp hops
      obtain ⟨l, -, hl, -, -⟩ := List.forall₂_cons_left_iff.mp (Operand.scalars_eq_ok.mp hr)
      have hsome := ho.values.isSome_scalar?
      rw [hl] at hsome
      cases hsome
    | pack _ hn' hr' => exact .vector (Operand.sameAt_scalars hops hr hr')

theorem sameAt_loadElement {m : Memory} {views views' : List View} {k : Nat} {l l' : Lanes}
    (hviews : SameAt i j views views') (h : loadElement m views ops k = .ok l)
    (h' : loadElement m views' ops' k = .ok l') : SameAt i j l l' := by
  obtain ⟨offsets, hoffsets, h⟩ := bind_eq_ok.mp h
  obtain ⟨offsets', hoffsets', h'⟩ := bind_eq_ok.mp h'
  have haddr := hviews.zip (Operand.sameAt_element hops hoffsets hoffsets')
  rw [← hops.length_eq] at h'
  split at h
  · rename_i hgated
    rw [if_pos hgated] at h'
    obtain ⟨gate, hgate, h⟩ := bind_eq_ok.mp h
    obtain ⟨gate', hgate', h'⟩ := bind_eq_ok.mp h'
    obtain ⟨default, hdefault, h⟩ := bind_eq_ok.mp h
    obtain ⟨default', hdefault', h'⟩ := bind_eq_ok.mp h'
    have hchoice := (Operand.sameAt_element hops hgate hgate').zip
      (Operand.sameAt_element hops hdefault hdefault')
    exact (haddr.zip hchoice).mapM h h'
  · rename_i hgated
    rw [if_neg hgated] at h'
    exact haddr.mapM h h'

theorem sameAt_loadElements {m : Memory} {views views' : List View} {k count : Nat}
    {es es' : List Lanes} (hviews : SameAt i j views views')
    (h : loadElements m views ops k count = .ok es)
    (h' : loadElements m views' ops' k count = .ok es') : List.Forall₂ (SameAt i j) es es' := by
  induction count generalizing k es es' with
  | zero =>
    cases h
    cases h'
    exact .nil
  | succ count ih =>
    obtain ⟨l, hl, h⟩ := bind_eq_ok.mp h
    obtain ⟨l', hl', h'⟩ := bind_eq_ok.mp h'
    obtain ⟨r, hr, h⟩ := bind_eq_ok.mp h
    obtain ⟨r', hr', h'⟩ := bind_eq_ok.mp h'
    cases h
    cases h'
    exact .cons (sameAt_loadElement hops hviews hl hl') (ih hr hr')

omit hops in
theorem sameAt_loadImage {m : Memory} {views views' : List View} {height width : Nat}
    {xs xs' ys ys' : Lanes} {es es' : List Lanes} (hviews : SameAt i j views views')
    (hxs : SameAt i j xs xs') (hys : SameAt i j ys ys')
    (h : m.loadImage views height width xs ys = .ok es)
    (h' : m.loadImage views' height width xs' ys' = .ok es') :
    List.Forall₂ (SameAt i j) es es' := by
  refine forall₂_images (List.forall₂_same.mpr fun _ _ => rfl) (mapM_eq_ok.mp h)
    (mapM_eq_ok.mp h') ?_
  rintro c _ l l' rfl hl hl'
  exact (hviews.zip (hxs.zip hys)).mapM hl hl'

/-- Both loads find the same image, or no image, in the type of their buffer. -/
theorem sameAt_load {m : Memory} (h : load m d ops = .ok v) (h' : load m d ops' = .ok v') :
    v.SameAt i j v' := by
  have hbuffer {o o' : Operand} {r r' : List Operand} {views views' : List View}
      (ho : ops = o :: r) (ho' : ops' = o' :: r') (hv : o.values.buffer? = some views)
      (hv' : o'.values.buffer? = some views') :
      SameAt i j views views' ∧ o.type.shape? = o'.type.shape? := by
    subst ho ho'
    have hsame := (List.forall₂_cons.mp hops).1
    exact ⟨hsame.values.buffer? hv hv', by rw [hsame.type]⟩
  cases loads_of_load h with
  | texels ho hv hs hn hc he =>
    cases loads_of_load h' with
    | texels ho' hv' hs' hn' hc' he' =>
      obtain ⟨hviews, hshape⟩ := hbuffer ho ho' hv hv'
      rw [hs, hs'] at hshape
      cases hshape
      obtain ⟨hxs, hys⟩ := Operand.sameAt_coordinates hops hc hc'
      exact .vector (sameAt_loadImage hviews hxs hys he he')
    | vector ho' hv' hs' => cases hs.symm.trans ((hbuffer ho ho' hv hv').2.trans hs')
    | scalar ho' hv' hs' => cases hs.symm.trans ((hbuffer ho ho' hv hv').2.trans hs')
  | vector ho hv hs hd he =>
    cases loads_of_load h' with
    | texels ho' hv' hs' => cases hs.symm.trans ((hbuffer ho ho' hv hv').2.trans hs')
    | vector ho' hv' hs' hd' he' =>
      exact .vector (sameAt_loadElements hops (hbuffer ho ho' hv hv').1 he he')
    | scalar ho' hv' hs' hd' => cases hd.symm.trans hd'
  | scalar ho hv hs hd hl =>
    cases loads_of_load h' with
    | texels ho' hv' hs' => cases hs.symm.trans ((hbuffer ho ho' hv hv').2.trans hs')
    | vector ho' hv' hs' hd' => cases hd.symm.trans hd'
    | scalar ho' hv' hs' hd' hl' =>
      exact .scalar (sameAt_loadElement hops (hbuffer ho ho' hv hv').1 hl hl')

theorem sameAt_pick {arg : Arg} (h : pick pc arg ops = .ok v) (h' : pick pc arg ops' = .ok v') :
    v.SameAt i j v' := by
  obtain ⟨k, l, rfl, hl, rfl⟩ := element_of_pick h
  obtain ⟨k', l', hk, hl', rfl⟩ := element_of_pick h'
  cases hk
  obtain ⟨v, v', hv, hf, hf'⟩ :=
    Operand.sameAt_of_bind (f := fun v => v.vector?.bind (·[k]?)) hops hl hl'
  obtain ⟨es, hes, hget⟩ := Option.bind_eq_some_iff.mp hf
  obtain ⟨es', hes', hget'⟩ := Option.bind_eq_some_iff.mp hf'
  obtain ⟨hk, rfl⟩ := List.getElem?_eq_some_iff.mp hget
  obtain ⟨hk', rfl⟩ := List.getElem?_eq_some_iff.mp hget'
  exact .scalar ((hv.vector? hes hes').get hk hk')

omit hops in
/-- The arguments of a lane are what the rows hold there. -/
theorem laneArguments_eq {rows rows' : List Lanes} (h : List.Forall₂ (SameAt i j) rows rows') :
    laneArguments rows i = laneArguments rows' j := by
  induction h with
  | nil => rfl
  | @cons l l' rows rows' hl _ ih =>
    obtain ⟨a, ha, ha'⟩ := hl
    change List.filterMap _ _ = _ at ih
    simp only [laneArguments, List.filterMap_cons, ha, ha']
    exact congrArg (a :: ·) ih

omit hops in
theorem lt_leadingCount {rows rows' : List Lanes} (hne : rows ≠ [])
    (h : List.Forall₂ (SameAt i j) rows rows') :
    i < leadingCount rows ∧ j < leadingCount rows' := by
  cases h with
  | nil => exact absurd rfl hne
  | cons hl _ =>
    obtain ⟨a, ha, ha'⟩ := hl
    exact ⟨(List.getElem?_eq_some_iff.mp ha).1, (List.getElem?_eq_some_iff.mp ha').1⟩

theorem sameAt_arithmetic {arg : Arg} (hne : ops ≠ []) (h : arithmetic pc d arg ops = .ok v)
    (h' : arithmetic pc d arg ops' = .ok v') : v.SameAt i j v' := by
  obtain ⟨op, rows, l, rfl, hrows, hl, rfl⟩ := rows_of_arithmetic h
  obtain ⟨op', rows', l', hop, hrows', hl', rfl⟩ := rows_of_arithmetic h'
  cases hop
  have hsame := Operand.sameAt_scalars hops hrows hrows'
  have hne : rows ≠ [] := by
    rintro rfl
    exact hne (List.length_eq_zero_iff.mp (Operand.scalars_eq_ok.mp hrows).length_eq)
  obtain ⟨hi, hj⟩ := lt_leadingCount hne hsame
  obtain ⟨a, ha, hfa⟩ := getElem?_of_mapM hl (List.getElem?_range hi)
  obtain ⟨a', ha', hfa'⟩ := getElem?_of_mapM hl' (List.getElem?_range hj)
  rw [laneArguments_eq hsame, hfa'] at hfa
  cases hfa
  exact .scalar ⟨_, ha, ha'⟩

omit hops in
/-- Counters that agree on the first lanes have reached the same bound, or neither
has. -/
theorem Loop.reached_eq {l l' : Lanes} {stop : Value} (h : SameAt 0 0 l l') :
    Loop.reached l stop = Loop.reached l' stop := by
  obtain ⟨a, ha, ha'⟩ := h
  cases l with
  | nil => cases ha
  | cons b l =>
    cases l' with
    | nil => cases ha'
    | cons b' l' =>
      cases ha
      cases ha'
      rfl

end

end Lockstep
