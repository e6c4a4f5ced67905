import Lockstep.Proofs.Alu.Integer
import Lockstep.Proofs.Alu.Promotion

/-!
# Integer operations are exact

`exact` says what an operation on integers comes to when integers have no
bounds. The main statement is that the evaluation of one lane, with its
promotion, its wide intermediate results and its single widening, is `exact`
followed by `fit`.
-/

namespace Lockstep.Alu

/-- What an operation on unbounded integers comes to. -/
inductive Exact where
  | number (i : Int)
  | truth (b : Bool)
  /-- no result for these operands -/
  | undefined
  /-- no result for any operands -/
  | unsupported
  deriving DecidableEq

/-- The exact result of an operation evaluated in an integer type. A selection
has its condition apart from the two integers it selects from. -/
def exact (t : IntType) (condition : Bool) : AluOp → List Int → Exact
  | .mulacc, [i, j, k] => .number (i * j + k)
  | .neg, [i] => .number (-i)
  | .mul, [i, j] => .number (i * j)
  | .add, [i, j] => .number (i + j)
  | .sub, [i, j] => .number (i - j)
  | .max, [i, j] => .number (max i j)
  | .div, [i, j] => if j = 0 then .undefined else .number ⌊(i / j : ℚ)⌋
  | .mod, [i, j] =>
    if t.isSigned = false ∨ j = 0 then .undefined else .number (i - j * ⌊(i / j : ℚ)⌋)
  | .xor, [i, j] => if t.isSigned then .number (Int.xor i j) else .undefined
  | .select, [i, j] => .number (if condition then i else j)
  | .cmpeq, [i, j] => .truth (decide (i = j))
  | .cmplt, [i, j] => .truth (decide (i < j))
  | .noop, _ => .unsupported
  | .cast, _ => .unsupported
  | .recip, _ => .unsupported
  | _, _ => .undefined

/-- The evaluation of a lane ends as the exact result requires. -/
def Exact.Describes (op : AluOp) (t : IntType) (r : Except Fault Value) : Exact → Prop
  | number i => r = fit op t i
  | truth b => r = .ok (.bool b)
  | undefined => ∃ cause, r = .error (.invalidOperands (.alu op) cause)
  | unsupported => r = .error (.unsupported op)

/-- The operands whose types decide the evaluation type: all but the condition
of a selection. -/
def typedOperands (op : AluOp) (operands : List Value) : List Value :=
  if op = .select then operands.tail else operands

/-- Whether the first operand counts as true. -/
def conditionHolds (operands : List Value) : Bool :=
  operands.head?.any Value.truthy

/-! ## Operations on exact integers -/

/-- An exact result among the wide integers. -/
def Exact.outcome : Exact → Outcome
  | number i => whole i
  | truth b => .ok (.truth b)
  | undefined | unsupported => .error .undefined

theorem isNumeric_int (t : IntType) : isNumeric (.int t) = true := by
  cases t <;> rfl

theorem isInt_int (t : IntType) : (ScalarType.int t).isInt = true := by
  cases t <;> rfl

theorem isSigned_int (t : IntType) : (ScalarType.int t).isSigned = t.isSigned := by
  cases t <;> rfl

theorem isFloat_int (t : IntType) : (ScalarType.int t).isFloat = false := by
  cases t <;> rfl

theorem whole_of_contains {t : IntType} {i : Int} (h : t.contains i = true) :
    whole i = .ok (.whole i) := by
  rw [whole, if_pos (IntType.wide_of_widest (IntType.contains_widest h))]

/-- The product of two signed numbers is never beyond the wide integers. -/
theorem wide_mul_of_signed {t : IntType} {i j : Int} (ht : t.isSigned = true)
    (hi : t.contains i = true) (hj : t.contains j = true) : Wide.contains (i * j) = true := by
  have hsigned : ∀ n : Int, t.contains n = true →
      -0x8000000000000000 ≤ n ∧ n ≤ 0x8000000000000000 := by
    intro n hn
    rw [IntType.contains_iff] at hn
    cases t <;> simp [IntType.isSigned] at ht <;>
      simp [IntType.min, IntType.max, IntType.isSigned, IntType.bits, IntType.size] at hn <;>
      omega
  obtain ⟨hi₁, hi₂⟩ := hsigned i hi
  obtain ⟨hj₁, hj₂⟩ := hsigned j hj
  rw [Wide.contains, decide_eq_true_iff]
  unfold Wide.min Wide.max
  constructor <;> nlinarith

theorem nonneg_of_unsigned {t : IntType} {i : Int} (ht : t.isSigned = false)
    (hi : t.contains i = true) : 0 ≤ i := by
  have hmin := (IntType.contains_iff.mp hi).1
  simpa [IntType.min, ht] using hmin

/-- A product of unsigned numbers beyond the wide integers stays beyond them
when an unsigned number is added. -/
theorem not_wide_mulacc {t : IntType} {i j k : Int} (hi : t.contains i = true)
    (hj : t.contains j = true) (hk : t.contains k = true) (hw : Wide.contains (i * j) = false) :
    Wide.contains (i * j + k) = false := by
  cases ht : t.isSigned with
  | true =>
    rw [wide_mul_of_signed ht hi hj] at hw
    cases hw
  | false =>
    have hij : 0 ≤ i * j := mul_nonneg (nonneg_of_unsigned ht hi) (nonneg_of_unsigned ht hj)
    have hk₀ : 0 ≤ k := nonneg_of_unsigned ht hk
    rw [Wide.contains, decide_eq_false_iff_not] at hw ⊢
    unfold Wide.min at hw ⊢
    omega

/-- The check after the product makes no difference to the check after the
sum. -/
theorem whole_mulacc {t : IntType} {i j k : Int} (hi : t.contains i = true)
    (hj : t.contains j = true) (hk : t.contains k = true) :
    (whole (i * j) >>= fun n => arithmetic (· + ·) Binary64.add n (.whole k)) =
      whole (i * j + k) := by
  cases hw : Wide.contains (i * j) with
  | true =>
    rw [show whole (i * j) = .ok (.whole (i * j)) by rw [whole, if_pos hw]]
    rfl
  | false =>
    have hbeyond := not_wide_mulacc hi hj hk hw
    rw [show whole (i * j) = .error .beyond by rw [whole, if_neg (by simp [hw])],
      show whole (i * j + k) = .error .beyond by rw [whole, if_neg (by simp [hbeyond])]]
    rfl

theorem binary_whole {t : IntType} (f : Int → Int → Int) (g : Binary64 → Binary64 → Binary64)
    (i j : Int) : binary (.int t) f g [.whole i, .whole j] = whole (f i j) := by
  rw [binary, if_pos (isNumeric_int t)]
  rfl

theorem div_whole {t : IntType} (i j : Int) : div (.int t) [.whole i, .whole j] =
    if j = 0 then .error .undefined else whole ⌊(i / j : ℚ)⌋ := by
  rw [div, isInt_int]
  by_cases hj : j = 0
  · simp [hj]
  · rw [if_neg hj, floor_div i hj]
    simp [hj]

theorem mod_whole {t : IntType} (i j : Int) : mod (.int t) [.whole i, .whole j] =
    if t.isSigned = false ∨ j = 0 then .error .undefined
    else whole (i - j * ⌊(i / j : ℚ)⌋) := by
  rw [mod, isSigned_int]
  by_cases hj : j = 0
  · simp [hj]
  · rw [floor_div i hj, ← Int.fmod_def]
    cases t.isSigned <;> simp [hj]

section

variable {op : AluOp} {t : IntType} {b : Bool}

theorem apply_one (hop : op ≠ .select) (i : Int) :
    apply op (.int t) [.whole i] = (exact t b op [i]).outcome := by
  cases op with
  | select => exact absurd rfl hop
  | log2 | exp2 | sqrt | sin => exact if_neg (by simp [isFloat_int])
  | neg => exact if_pos (isNumeric_int t)
  | _ => rfl

theorem apply_two (hop : op ≠ .select) {i j : Int} (hi : t.contains i = true)
    (hj : t.contains j = true) :
    apply op (.int t) [.whole i, .whole j] = (exact t b op [i, j]).outcome := by
  cases op with
  | select => exact absurd rfl hop
  | mul | add | sub | max => exact binary_whole _ _ i j
  | cmpeq | cmplt => exact if_pos (isNumeric_int t)
  | div =>
    refine (div_whole i j).trans ?_
    rw [exact]
    split <;> rfl
  | mod =>
    refine (mod_whole i j).trans ?_
    rw [exact]
    split <;> rfl
  | xor =>
    change (if (ScalarType.int t).isSigned then (.ok (.whole (xorWords t.bits i j)) : Outcome)
      else .error .undefined) = _
    rw [isSigned_int, exact]
    cases hs : t.isSigned with
    | true =>
      rw [if_pos rfl, if_pos rfl, xorWords_eq hs hi hj]
      exact (whole_of_contains (contains_xor hs hi hj)).symm
    | false => rfl
  | _ => rfl

theorem apply_three (hop : op ≠ .select) {i j k : Int} (hi : t.contains i = true)
    (hj : t.contains j = true) (hk : t.contains k = true) :
    apply op (.int t) [.whole i, .whole j, .whole k] = (exact t b op [i, j, k]).outcome := by
  cases op with
  | select => exact absurd rfl hop
  | mulacc => exact (if_pos (isNumeric_int t)).trans (whole_mulacc hi hj hk)
  | _ => rfl

/-- On the integers of one type every operation does what `exact` says, as far
as the wide integers go. No operation takes none or more than three. -/
theorem apply_whole {ns : List Int} (hop : op ≠ .select) (hns : ∀ n ∈ ns, t.contains n = true) :
    apply op (.int t) (ns.map .whole) = (exact t b op ns).outcome := by
  obtain _ | ⟨i, _ | ⟨j, _ | ⟨k, _ | ⟨l, r⟩⟩⟩⟩ := ns
  · cases op with
    | select => exact absurd rfl hop
    | _ => rfl
  · exact apply_one hop i
  · exact apply_two hop (hns i (by simp)) (hns j (by simp))
  · exact apply_three hop (hns i (by simp)) (hns j (by simp)) (hns k (by simp))
  · cases op with
    | select => exact absurd rfl hop
    | _ => rfl

end

/-- A selection gives one of its two integers, which is in the type. -/
theorem select_whole {t : IntType} {b : Bool} {ns : List Int}
    (hns : ∀ n ∈ ns, t.contains n = true) :
    select (.truth b :: ns.map .whole) = (exact t b .select ns).outcome := by
  obtain _ | ⟨i, _ | ⟨j, _ | ⟨k, r⟩⟩⟩ := ns
  · rfl
  · rfl
  · have hsel : t.contains (if b then i else j) = true := by
      cases b
      · exact hns j (by simp)
      · exact hns i (by simp)
    refine Eq.trans ?_ (whole_of_contains hsel).symm
    cases b <;> rfl
  · rfl

/-! ## The evaluation of one lane -/

/-- What becomes of the number that an operation gives. -/
def conclude (op : AluOp) (p : Promoted) : Outcome → Except Fault Value
  | .ok n => represent op p.type n
  | .error .undefined => .error (.invalidOperands (.alu op) (.noResult p.operands p.type))
  | .error .beyond => .error (.overflow op p.type.upgraded none)

theorem execute_eq_conclude {op : AluOp} {declared : ScalarType} {operands : List Value}
    {p : Promoted} (hp : prepare op declared operands = .ok p) (hop : op.isSupported = true) :
    execute op declared operands = conclude op p (apply op p.type (numbers op p)) := by
  unfold execute evaluate
  rw [hp]
  change (if _ then _ else _) >>= _ = _
  simp only [hop, Bool.not_true, Bool.false_eq_true, if_false]
  unfold conclude
  cases apply op p.type (numbers op p) with
  | ok n => rfl
  | error f => cases f <;> rfl

theorem execute_unsupported {op : AluOp} {declared : ScalarType} {operands : List Value}
    {p : Promoted} (hp : prepare op declared operands = .ok p) (hop : op.isSupported = false) :
    execute op declared operands = .error (.unsupported op) := by
  unfold execute evaluate
  rw [hp]
  change (if _ then _ else _) >>= _ = _
  simp only [hop, Bool.not_false, if_true]
  rfl

theorem conclude_whole (op : AluOp) (t : IntType) (vs : List Value) (r : Int) :
    conclude op ⟨.int t, vs⟩ (whole r) = fit op t r := by
  cases hw : Wide.contains r with
  | true =>
    rw [whole, if_pos hw]
    exact represent_whole hw
  | false =>
    rw [whole, if_neg (by simp [hw]), fit_of_beyond hw]
    rfl

theorem describes_conclude {op : AluOp} {t : IntType} {vs : List Value} {x : Exact}
    (hx : x ≠ .unsupported) : x.Describes op t (conclude op ⟨.int t, vs⟩ x.outcome) := by
  cases x with
  | number r => exact conclude_whole op t vs r
  | truth b => rfl
  | undefined => exact ⟨_, rfl⟩
  | unsupported => exact absurd rfl hx

theorem exact_eq_unsupported_iff {op : AluOp} {t : IntType} {b : Bool} {ns : List Int} :
    exact t b op ns = .unsupported ↔ op.isSupported = false := by
  unfold exact
  split <;> simp_all [AluOp.isSupported] <;> split <;> simp

theorem prepare_of_ne_select {op : AluOp} {declared : ScalarType} {operands : List Value}
    (hop : op ≠ .select) : prepare op declared operands = promote op declared operands := by
  cases op with
  | select => exact absurd rfl hop
  | _ => rfl

theorem numbers_of_ne_select {op : AluOp} {p : Promoted} (hop : op ≠ .select) :
    numbers op p = p.operands.map (operandNumber p.type.family) := by
  cases op with
  | select => exact absurd rfl hop
  | _ => rfl

section

variable {op : AluOp} {declared : ScalarType} {vs : List Value} {t : IntType} {ns : List Int}

theorem execute_of_ne_select {operands : List Value} (hop : op ≠ .select)
    (hp : promote op declared operands = .ok ⟨.int t, vs⟩)
    (hrange : ∀ n ∈ ns, t.contains n = true)
    (hnums : vs.map (operandNumber (ScalarType.int t).family) = ns.map .whole) (b : Bool) :
    (exact t b op ns).Describes op t (execute op declared operands) := by
  have hprepare : prepare op declared operands = .ok ⟨.int t, vs⟩ :=
    (prepare_of_ne_select hop).trans hp
  cases hs : op.isSupported with
  | true =>
    have hne : exact t b op ns ≠ .unsupported := by
      rw [Ne, exact_eq_unsupported_iff, hs]
      decide
    rw [execute_eq_conclude hprepare hs, numbers_of_ne_select hop]
    dsimp only
    rw [hnums, apply_whole (b := b) hop hrange]
    exact describes_conclude hne
  | false =>
    rw [exact_eq_unsupported_iff.mpr hs]
    exact execute_unsupported hprepare hs

/-- The condition of a selection goes around the promotion. -/
theorem execute_select {c : Value} {r : List Value}
    (hp : promote .select declared r = .ok ⟨.int t, vs⟩)
    (hrange : ∀ n ∈ ns, t.contains n = true)
    (hnums : vs.map (operandNumber (ScalarType.int t).family) = ns.map .whole) :
    (exact t c.truthy .select ns).Describes .select t (execute .select declared (c :: r)) := by
  have hprepare : prepare .select declared (c :: r) = .ok ⟨.int t, .bool c.truthy :: vs⟩ := by
    change (promote .select declared r).map _ = _
    rw [hp]
    rfl
  have hnumbers : numbers .select ⟨.int t, .bool c.truthy :: vs⟩ =
      .truth c.truthy :: ns.map .whole := by
    rw [← hnums]
    rfl
  have hne : exact t c.truthy .select ns ≠ .unsupported := by
    rw [Ne, exact_eq_unsupported_iff]
    decide
  rw [execute_eq_conclude hprepare rfl]
  dsimp only
  rw [hnumbers]
  change (exact t c.truthy .select ns).Describes .select t (conclude .select _ (select _))
  rw [select_whole hrange]
  exact describes_conclude hne

end

/-- When promotion gives an integer type, the evaluation of a lane agrees with
the arithmetic of unbounded integers: the exact result in the evaluation type
if it fits there, else in the widest type of its signedness, else an overflow.
No intermediate result is lost on the way. -/
theorem execute_exact {op : AluOp} {declared : ScalarType} {operands vs : List Value}
    {t : IntType} (hwf : ∀ v ∈ operands, v.WellFormed)
    (hp : promote op declared (typedOperands op operands) = .ok ⟨.int t, vs⟩) :
    ∃ ns : List Int, (typedOperands op operands).map Value.toInt? = ns.map some ∧
      (exact t (conditionHolds operands) op ns).Describes op t
        (execute op declared operands) := by
  have htyped : ∀ v ∈ typedOperands op operands, v.WellFormed := by
    intro v hv
    unfold typedOperands at hv
    split at hv
    · exact hwf v (List.mem_of_mem_tail hv)
    · exact hwf v hv
  obtain ⟨ns, hints, hrange, hnums⟩ := integers_of_promote htyped hp
  refine ⟨ns, hints, ?_⟩
  by_cases hop : op = .select
  · subst hop
    cases operands with
    | nil =>
      have hns : ns = [] := List.map_eq_nil_iff.mp hints.symm
      subst hns
      exact ⟨_, rfl⟩
    | cons c r => exact execute_select hp hrange hnums
  · rw [typedOperands, if_neg hop] at hp
    exact execute_of_ne_select hop hp hrange hnums _

/-- A product beyond the wide integers overflows although a truth value is
added to it. -/
theorem execute_exact_mulacc_beyond :
    execute .mulacc (.int .uint64)
        [.int .uint64 0xFFFFFFFFFFFFFFFF, .int .uint64 0xFFFFFFFFFFFFFFFF, .bool true] =
      .error (.overflow .mulacc (.int .uint64) none) := by
  obtain ⟨ns, hints, h⟩ := @execute_exact .mulacc (.int .uint64)
    [.int .uint64 0xFFFFFFFFFFFFFFFF, .int .uint64 0xFFFFFFFFFFFFFFFF, .bool true] _ .uint64
    (by decide) rfl
  have hns : ns = [0xFFFFFFFFFFFFFFFF, 0xFFFFFFFFFFFFFFFF, 1] :=
    List.map_injective_iff.mpr (Option.some_injective _) hints.symm
  subst hns
  exact h.trans (by decide)

end Lockstep.Alu
