import Lockstep.Proofs.Alu.Exact
import Lockstep.Proofs.Value.Family

/-!
# Types of results and kinds of faults

The tags of the operands alone decide in which type an operation is evaluated, or
that it is not. The numbers of an evaluation belong to the family of its type, so
the result can only be too large for it: it never lacks a place in the type.
-/

namespace Lockstep.Alu

variable {op : AluOp} {declared t : ScalarType} {operands : List Value} {ns : List Number}
variable {n : Number}

/-- The tag that an operand brings to promotion: a truth value takes on the
declared type. -/
def readType (declared : ScalarType) (v : Value) : ScalarType :=
  if v.type.isBool then declared else v.type

/-- The tags that decide the evaluation type. -/
def readTypes (op : AluOp) (declared : ScalarType) (operands : List Value) : List ScalarType :=
  (typedOperands op operands).map (readType declared) ++ [declared]

/-- The type in which an operation is evaluated, if its tags go together. -/
def evaluationType? (op : AluOp) (declared : ScalarType) (operands : List Value) :
    Option ScalarType :=
  ScalarType.highestOrder? (readTypes op declared operands)

/-- The family of the results of an operation evaluated in a type. -/
def resultFamily (op : AluOp) (t : ScalarType) : Family :=
  if op = .cmpeq ∨ op = .cmplt then .bool else t.family

/-! ## Promotion -/

/-- A truth value is 0 or 1 in every type. -/
theorem readOperand_ok (declared : ScalarType) (v : Value) :
    ∃ w, readOperand declared v = .ok w ∧ w.type = readType declared v := by
  cases v with
  | bool b =>
    cases declared with
    | bool => exact ⟨_, rfl, rfl⟩
    | int s =>
      refine ⟨.int s (if b then 1 else 0), ?_, rfl⟩
      cases b <;> cases s <;> rfl
    | float f =>
      refine ⟨.float f (.ofInt (if b then 1 else 0)), ?_, rfl⟩
      cases b <;> cases f <;> decide
  | int s i => exact ⟨.int s i, by cases s <;> rfl, by cases s <;> rfl⟩
  | float f x => exact ⟨.float f x, rfl, rfl⟩

theorem mapM_readOperand (declared : ScalarType) (operands : List Value) :
    ∃ vs, operands.mapM (readOperand declared) = .ok vs ∧
      vs.map Value.type = operands.map (readType declared) := by
  induction operands with
  | nil => exact ⟨[], rfl, rfl⟩
  | cons v operands ih =>
    obtain ⟨w, hw, htype⟩ := readOperand_ok declared v
    obtain ⟨ws, hws, htypes⟩ := ih
    refine ⟨w :: ws, ?_, by rw [List.map_cons, List.map_cons, htype, htypes]⟩
    rw [List.mapM_cons, hw, hws]
    rfl

/-- Promotion fails only for want of a common type. -/
theorem promote_eq (op : AluOp) (declared : ScalarType) (operands : List Value) :
    ∃ vs, vs.map Value.type = operands.map (readType declared) ∧
      promote op declared operands =
        match ScalarType.highestOrder? (operands.map (readType declared) ++ [declared]) with
        | some t => .ok ⟨t, vs⟩
        | none => .error (.typeMismatch op
            (.irreconcilable (operands.map (readType declared) ++ [declared]))) := by
  obtain ⟨vs, hvs, htypes⟩ := mapM_readOperand declared operands
  refine ⟨vs, htypes, ?_⟩
  rw [← htypes, promote, hvs]
  rfl

/-- When types go together in bool, each of them is bool. -/
theorem eq_bool_of_highestOrder {ts : List ScalarType} {s : ScalarType}
    (h : ScalarType.highestOrder? ts = some .bool) (hs : s ∈ ts) : s = .bool := by
  unfold ScalarType.highestOrder? at h
  split at h
  · cases h
  · split at h
    · cases h
    · have hrank : s.rank ≤ ScalarType.bool.rank :=
        Option.some.inj h ▸ ScalarType.rank_le_highest hs
      cases s with
      | bool => rfl
      | int s => cases s <;> cases hrank
      | float f => cases f <;> cases hrank

/-- What an operand is read as belongs to the family of the evaluation. -/
theorem operandNumber_inFamily {ts : List ScalarType} {v : Value}
    (h : ScalarType.highestOrder? ts = some t) (hv : v.type ∈ ts) :
    (operandNumber t.family v).InFamily t.family := by
  cases t with
  | bool =>
    cases v with
    | bool b => trivial
    | int s i => cases eq_bool_of_highestOrder h hv
    | float f x => cases eq_bool_of_highestOrder h hv
  | int t =>
    cases v with
    | bool b => cases t <;> trivial
    | int s i => cases t <;> trivial
    | float f x =>
      obtain hbool | ⟨s, hs, -⟩ := ScalarType.of_highestOrder_int h hv
      · cases hbool
      · cases hs
  | float f => cases v <;> trivial

theorem map_operandNumber_inFamily {ts : List ScalarType} {vs : List Value}
    (h : ScalarType.highestOrder? ts = some t) (hvs : ∀ v ∈ vs, v.type ∈ ts) :
    ∀ n ∈ vs.map (operandNumber t.family), n.InFamily t.family := by
  intro n hn
  obtain ⟨v, hv, rfl⟩ := List.mem_map.mp hn
  exact operandNumber_inFamily h (hvs v hv)

/-! ## Operations keep to the family -/

/-- How an operation on numbers of a family `f` ends: with a number of family `g`,
without one, or beyond the wide integers, where no float goes. -/
inductive Kept (f g : Family) : Outcome → Prop
  | number {n : Number} (h : n.InFamily g) : Kept f g (.ok n)
  | undefined : Kept f g (.error .undefined)
  | beyond (h : f ≠ .float) : Kept f g (.error .beyond)

section

variable {f : Family} {exact : Int → Int → Int} {rounded : Binary64 → Binary64 → Binary64}

theorem kept_whole {i : Int} (hi : (Number.whole i).InFamily f) (j : Int) :
    Kept f f (whole j) := by
  unfold whole
  split
  · exact .number hi.whole
  · refine .beyond fun hf => ?_
    rw [hf] at hi
    exact hi

theorem kept_real (ht : t.isFloat = true) (x : Binary64) :
    Kept t.family t.family (.ok (.real x)) := by
  cases t with
  | bool => cases ht
  | int s => cases s <;> cases ht
  | float f => exact .number trivial

theorem kept_arithmetic {a b : Number} (ha : a.InFamily f) (hb : b.InFamily f) :
    Kept f f (arithmetic exact rounded a b) := by
  cases a with
  | truth c => exact .undefined
  | whole i =>
    cases b with
    | truth c => exact .undefined
    | whole j => exact kept_whole ha _
    | real y => exact absurd hb ha.not_real
  | real x =>
    cases b with
    | truth c => exact .undefined
    | whole j => exact absurd ha hb.not_real
    | real y => exact .number ha.real

theorem kept_binary (hns : ∀ m ∈ ns, m.InFamily t.family) :
    Kept t.family t.family (binary t exact rounded ns) := by
  unfold binary
  split
  · split
    · exact kept_arithmetic (hns _ (by simp)) (hns _ (by simp))
    · exact .undefined
  · exact .undefined

theorem kept_mulacc (hns : ∀ m ∈ ns, m.InFamily t.family) :
    Kept t.family t.family (mulacc t ns) := by
  unfold mulacc
  split
  · rename_i a b c
    split
    · have hprod : Kept t.family t.family (arithmetic (· * ·) .mul a b) :=
        kept_arithmetic (hns _ (by simp)) (hns _ (by simp))
      generalize arithmetic (· * ·) .mul a b = p at hprod
      cases hprod with
      | number hp => exact kept_arithmetic hp (hns c (by simp))
      | undefined => exact .undefined
      | beyond ht => exact .beyond ht
    · exact .undefined
  · exact .undefined

theorem kept_ofFloat {g : Binary64 → Binary64} : Kept t.family t.family (ofFloat t g ns) := by
  unfold ofFloat
  split
  · split
    · exact kept_real ‹_› _
    · exact .undefined
  · exact .undefined

theorem kept_compare {exact : Int → Int → Bool} {rounded : Binary64 → Binary64 → Bool} :
    Kept f .bool (compare t exact rounded ns) := by
  unfold compare
  split
  · split
    · exact .number trivial
    · exact .undefined
  · split
    · exact .number trivial
    · exact .undefined
  · exact .undefined

theorem kept_neg (hns : ∀ m ∈ ns, m.InFamily t.family) : Kept t.family t.family (neg t ns) := by
  unfold neg
  split
  · split
    · exact kept_whole (hns _ (List.mem_singleton_self _)) _
    · exact .undefined
  · split
    · exact .number (hns _ (List.mem_singleton_self _)).real
    · exact .undefined
  · exact .undefined

theorem kept_xor (hns : ∀ m ∈ ns, m.InFamily t.family) : Kept t.family t.family (xor t ns) := by
  unfold xor
  split
  · split
    · exact .number (hns _ List.mem_cons_self).whole
    · exact .undefined
  · exact .undefined

theorem kept_div (hns : ∀ m ∈ ns, m.InFamily t.family) : Kept t.family t.family (div t ns) := by
  unfold div
  split
  · split
    · exact kept_whole (hns _ List.mem_cons_self) _
    · exact .undefined
  · split
    · exact kept_real ‹_› _
    · exact .undefined
  · exact .undefined

theorem kept_mod (hns : ∀ m ∈ ns, m.InFamily t.family) : Kept t.family t.family (mod t ns) := by
  unfold mod
  split
  · split
    · exact kept_whole (hns _ List.mem_cons_self) _
    · exact .undefined
  · exact .undefined

/-- A selection gives one of the numbers it selects from. -/
theorem kept_select {b : Bool} (hns : ∀ m ∈ ns, m.InFamily f) :
    Kept f f (select (.truth b :: ns)) := by
  unfold select
  split
  · rename_i c x y heq
    obtain ⟨-, rfl⟩ := List.cons.inj heq
    cases c
    · exact .number (hns _ (by simp))
    · exact .number (hns _ (by simp))
  · exact .undefined

end

/-- A comparison gives a truth value; every other operation on numbers of a
family gives one of that family. -/
theorem kept_apply (hop : op ≠ .select) (hns : ∀ m ∈ ns, m.InFamily t.family) :
    Kept t.family (resultFamily op t) (apply op t ns) := by
  cases op with
  | select => exact absurd rfl hop
  | mulacc => exact kept_mulacc hns
  | log2 | exp2 | sqrt | sin => exact kept_ofFloat
  | neg => exact kept_neg hns
  | mul | add | sub | max => exact kept_binary hns
  | xor => exact kept_xor hns
  | div => exact kept_div hns
  | mod => exact kept_mod hns
  | cmpeq | cmplt => exact kept_compare
  | noop | cast | recip => exact .undefined

/-! ## Representation -/

/-- How a lane ends that is evaluated in a type. -/
inductive Ends (op : AluOp) (t : ScalarType) : Except Fault Value → Prop
  | truth (hop : op = .cmpeq ∨ op = .cmplt) (b : Bool) : Ends op t (.ok (.bool b))
  | value (hop : ¬(op = .cmpeq ∨ op = .cmplt)) {v : Value} (hv : v.type = t ∨ v.type = t.upgraded) :
      Ends op t (.ok v)
  | unsupported : Ends op t (.error (.unsupported op))
  | invalid (cause : OperandFault) : Ends op t (.error (.invalidOperands (.alu op) cause))
  | overflow (ht : t.family ≠ .float) (n : Option Number) :
      Ends op t (.error (.overflow op t.upgraded n))

theorem settled_attempt (h : n.InFamily t.family) : Value.Settled n t (attempt n t) := by
  cases n with
  | truth b =>
    cases t with
    | bool => exact .value rfl
    | int s => cases s <;> cases h
    | float f => cases h
  | whole i => exact Value.settled_ofNumber h
  | real x => exact Value.settled_ofNumber h

/-- A number of the family is represented in the type or in the widest one, or is
an integer too large for both. -/
theorem ends_represent (hop : ¬(op = .cmpeq ∨ op = .cmplt)) (h : n.InFamily t.family) :
    Ends op t (represent op t n) := by
  have hupgraded : n.InFamily t.upgraded.family := by rwa [ScalarType.family_upgraded]
  have hfirst := settled_attempt h
  have hsecond := settled_attempt hupgraded
  unfold represent
  generalize attempt n t = first at hfirst
  generalize attempt n t.upgraded = second at hsecond
  cases hfirst with
  | value hv => exact .value hop (.inl hv)
  | overflow _ =>
    cases hsecond with
    | value hv => exact .value hop (.inr hv)
    | overflow ht =>
      refine .overflow (fun hfloat => ?_) _
      cases t with
      | bool => cases hfloat
      | int s => cases s <;> cases hfloat
      | float f => exact ht rfl

/-! ## The evaluation of one lane -/

theorem readTypes_of_ne_select (hop : op ≠ .select) :
    readTypes op declared operands = operands.map (readType declared) ++ [declared] := by
  rw [readTypes, typedOperands, if_neg hop]

theorem readTypes_select {c : Value} {r : List Value} :
    readTypes .select declared (c :: r) = r.map (readType declared) ++ [declared] := by
  rw [readTypes, typedOperands, if_pos rfl, List.tail_cons]

/-- A single type goes together with itself. -/
theorem highestOrder_singleton (s : ScalarType) : ScalarType.highestOrder? [s] ≠ none := by
  cases s with
  | bool => decide
  | int t => cases t <;> decide
  | float t => cases t <;> decide

theorem execute_of_none (h : evaluationType? op declared operands = none) :
    execute op declared operands =
      .error (.typeMismatch op (.irreconcilable (readTypes op declared operands))) := by
  have hfails : prepare op declared operands =
      .error (.typeMismatch op (.irreconcilable (readTypes op declared operands))) := by
    by_cases hop : op = .select
    · subst hop
      cases operands with
      | nil => exact absurd h (highestOrder_singleton declared)
      | cons c r =>
        obtain ⟨vs, -, hvs⟩ := promote_eq .select declared r
        rw [evaluationType?, readTypes_select] at h
        rw [readTypes_select, prepare, hvs, h]
        rfl
    · obtain ⟨vs, -, hvs⟩ := promote_eq op declared operands
      rw [evaluationType?, readTypes_of_ne_select hop] at h
      rw [readTypes_of_ne_select hop, prepare_of_ne_select hop, hvs, h]
  rw [execute, evaluate, hfails]
  rfl

/-- Operands whose tags go together are promoted to numbers of one family, on
which the operation keeps to it. -/
theorem prepare_of_some (h : evaluationType? op declared operands = some t)
    (hne : op = .select → operands ≠ []) :
    ∃ p, prepare op declared operands = .ok p ∧ p.type = t ∧
      Kept t.family (resultFamily op t) (apply op t (numbers op p)) := by
  have hread : ∀ {l vs : List Value}, vs.map Value.type = l.map (readType declared) →
      ∀ v ∈ vs, v.type ∈ l.map (readType declared) ++ [declared] := by
    intro l vs hvs v hv
    exact List.mem_append_left _ (hvs ▸ List.mem_map_of_mem hv)
  by_cases hop : op = .select
  · subst hop
    cases operands with
    | nil => exact absurd rfl (hne rfl)
    | cons c r =>
      obtain ⟨vs, htypes, hvs⟩ := promote_eq .select declared r
      rw [evaluationType?, readTypes_select] at h
      refine ⟨⟨t, .bool c.truthy :: vs⟩, ?_, rfl, ?_⟩
      · rw [prepare, hvs, h]
        rfl
      · exact kept_select (map_operandNumber_inFamily h (hread htypes))
  · obtain ⟨vs, htypes, hvs⟩ := promote_eq op declared operands
    rw [evaluationType?, readTypes_of_ne_select hop] at h
    refine ⟨⟨t, vs⟩, ?_, rfl, ?_⟩
    · rw [prepare_of_ne_select hop, hvs, h]
    · rw [numbers_of_ne_select hop]
      exact kept_apply hop (map_operandNumber_inFamily h (hread htypes))

/-- An evaluation that gets a type ends in a result of it or of the widest type
of its family, or in a fault other than a failed conversion. -/
theorem ends_execute (h : evaluationType? op declared operands = some t) :
    Ends op t (execute op declared operands) := by
  by_cases hne : op = .select ∧ operands = []
  · obtain ⟨rfl, rfl⟩ := hne
    exact .invalid .noCondition
  · obtain ⟨p, hp, rfl, hkept⟩ := prepare_of_some h fun hop hnil => hne ⟨hop, hnil⟩
    cases hs : op.isSupported with
    | false =>
      rw [execute_unsupported hp hs]
      exact .unsupported
    | true =>
      rw [execute_eq_conclude hp hs]
      generalize apply op p.type (numbers op p) = r at hkept
      cases hkept with
      | @number n hn =>
        by_cases hcmp : op = .cmpeq ∨ op = .cmplt
        · rw [resultFamily, if_pos hcmp] at hn
          obtain ⟨b, rfl⟩ := Number.inFamily_bool.mp hn
          exact .truth hcmp b
        · rw [resultFamily, if_neg hcmp] at hn
          exact ends_represent hcmp hn
      | undefined => exact .invalid _
      | beyond ht => exact .overflow ht none

/-- The tags of the operands decide which kinds of result and fault an operation
can have. It never lacks a conversion; it mismatches exactly when no type takes
the tags, and then says which; a selection without operands is invalid; a result
is a truth value for a comparison and otherwise has the evaluation type or the
widest one of its family; and no evaluation in a float type overflows. -/
theorem execute_kinds (op : AluOp) (declared : ScalarType) (operands : List Value) :
    (∀ e, execute op declared operands ≠ .error (.conversion e)) ∧
    ((∃ o m, execute op declared operands = .error (.typeMismatch o m)) ↔
      evaluationType? op declared operands = none) ∧
    (evaluationType? op declared operands = none → execute op declared operands =
      .error (.typeMismatch op (.irreconcilable (readTypes op declared operands)))) ∧
    execute .select declared [] = .error (.invalidOperands (.alu .select) .noCondition) ∧
    (∀ v, execute op declared operands = .ok v →
      if op = .cmpeq ∨ op = .cmplt then v.type = .bool
      else ∃ t, evaluationType? op declared operands = some t ∧
        (v.type = t ∨ v.type = t.upgraded)) ∧
    (∀ t, evaluationType? op declared operands = some t → t.isFloat = true →
      ∀ o s n, execute op declared operands ≠ .error (.overflow o s n)) := by
  cases htype : evaluationType? op declared operands with
  | none =>
    rw [execute_of_none htype]
    refine ⟨fun e he => ?_, ⟨fun _ => rfl, fun _ => ⟨_, _, rfl⟩⟩, fun _ => rfl, rfl,
      fun v hv => ?_, fun t ht => ?_⟩
    · cases he
    · cases hv
    · cases ht
  | some t =>
    have hends := ends_execute htype
    generalize execute op declared operands = r at hends
    refine ⟨?_, ⟨?_, nofun⟩, nofun, rfl, ?_, ?_⟩
    · rintro e rfl
      cases hends
    · rintro ⟨o, m, rfl⟩
      cases hends
    · rintro v rfl
      cases hends with
      | truth hop b =>
        rw [if_pos hop]
        rfl
      | value hop hv =>
        rw [if_neg hop]
        exact ⟨t, rfl, hv⟩
    · rintro t' ht' hfloat o s n rfl
      cases ht'
      cases hends with
      | overflow ht _ => exact ht (eq_of_beq hfloat)

end Lockstep.Alu
