import Lockstep.Proofs.Alu.Range
import Lockstep.Proofs.Outcome
import Mathlib.Order.Nat

/-!
# The type of an evaluation

When the operands of an operation are promoted to an integer type, each of them
stands for an integer in the range of that type.
-/

namespace Lockstep

namespace ScalarType

/-- The type of higher rank, the first one on a tie. -/
def higher (best t : ScalarType) : ScalarType := if best.rank < t.rank then t else best

theorem le_rank_higher (a b : ScalarType) :
    a.rank ≤ (higher a b).rank ∧ b.rank ≤ (higher a b).rank := by
  unfold higher
  split <;> omega

theorem rank_le_foldl (ts : List ScalarType) (best : ScalarType) :
    best.rank ≤ (ts.foldl higher best).rank ∧
      ∀ t ∈ ts, t.rank ≤ (ts.foldl higher best).rank := by
  induction ts generalizing best with
  | nil => simp
  | cons t ts ih =>
    obtain ⟨hbest, hts⟩ := ih (higher best t)
    have hboth := le_rank_higher best t
    rw [List.foldl_cons]
    refine ⟨hboth.1.trans hbest, ?_⟩
    intro s hs
    rcases List.mem_cons.mp hs with rfl | hs
    · exact hboth.2.trans hbest
    · exact hts s hs

theorem foldl_mem (ts : List ScalarType) (best : ScalarType) :
    ts.foldl higher best = best ∨ ts.foldl higher best ∈ ts := by
  induction ts generalizing best with
  | nil => exact .inl rfl
  | cons t ts ih =>
    rw [List.foldl_cons]
    rcases ih (higher best t) with h | h
    · rw [h]
      unfold higher
      split
      · exact .inr List.mem_cons_self
      · exact .inl rfl
    · exact .inr (List.mem_cons_of_mem _ h)

theorem rank_le_highest {ts : List ScalarType} {t : ScalarType} (h : t ∈ ts) :
    t.rank ≤ (highest ts).rank :=
  (rank_le_foldl ts bool).2 t h

theorem highest_mem (ts : List ScalarType) : highest ts = bool ∨ highest ts ∈ ts :=
  foldl_mem ts bool

/-- When types go together in an integer type, each is bool or an integer type
of the same signedness and no higher rank. -/
theorem of_highestOrder_int {ts : List ScalarType} {t : IntType}
    (h : highestOrder? ts = some (int t)) {s : ScalarType} (hs : s ∈ ts) :
    s = bool ∨ ∃ s', s = int s' ∧ s'.isSigned = t.isSigned ∧ (int s').rank ≤ (int t).rank := by
  unfold highestOrder? at h
  split at h
  · cases h
  · rename_i hsign
    split at h
    · cases h
    · have hhigh : highest ts = int t := Option.some.inj h
      have hrank : s.rank ≤ (int t).rank := hhigh ▸ rank_le_highest hs
      have hmem : int t ∈ ts := by
        rcases highest_mem ts with hb | hm
        · rw [hb] at hhigh
          cases hhigh
        · exact hhigh ▸ hm
      cases s with
      | bool => exact .inl rfl
      | float f => exact absurd hrank (by cases f <;> cases t <;> decide)
      | int s' =>
        refine .inr ⟨s', rfl, ?_, hrank⟩
        by_contra hne
        apply hsign
        rw [Bool.and_eq_true, List.any_eq_true, List.any_eq_true]
        cases hs' : s'.isSigned <;> cases ht : t.isSigned
        · exact absurd (hs'.trans ht.symm) hne
        · exact ⟨⟨_, hmem, by simp [isSigned, family, ht]⟩,
            ⟨_, hs, by simp [isUnsigned, family, hs']⟩⟩
        · exact ⟨⟨_, hs, by simp [isSigned, family, hs']⟩,
            ⟨_, hmem, by simp [isUnsigned, family, ht]⟩⟩
        · exact absurd (hs'.trans ht.symm) hne

end ScalarType

/-- Of two integer types of one signedness, the one of higher rank includes the
other. -/
theorem IntType.contains_of_rank_le {s t : IntType} (hsign : s.isSigned = t.isSigned)
    (hrank : (ScalarType.int s).rank ≤ (ScalarType.int t).rank) {i : Int}
    (h : s.contains i = true) : t.contains i = true := by
  rw [IntType.contains_iff] at h ⊢
  cases s <;> cases t <;> simp [ScalarType.rank, isSigned] at hsign hrank <;>
    simp [min, max, isSigned, bits, size] at h ⊢ <;> omega

namespace Alu

variable {op : AluOp} {declared : ScalarType} {t : IntType}

theorem promote_eq_ok {operands : List Value} {p : Promoted} :
    promote op declared operands = .ok p ↔
      operands.mapM (readOperand declared) = .ok p.operands ∧
        ScalarType.highestOrder? (p.operands.map Value.type ++ [declared]) = some p.type := by
  unfold promote
  rw [bind_eq_ok]
  constructor
  · rintro ⟨vs, hvs, h⟩
    dsimp only at h
    split at h
    · rename_i ht
      cases h
      exact ⟨hvs, ht⟩
    · cases h
  · rintro ⟨hvs, ht⟩
    refine ⟨p.operands, hvs, ?_⟩
    dsimp only
    rw [ht]
    rfl

/-- Only a truth value is rewritten, as 0 or 1 of the declared type. -/
theorem readOperand_eq_ok {v w : Value} (h : readOperand declared v = .ok w)
    (hd : declared.isFloat = false) :
    w = v ∨ ∃ b s, v = .bool b ∧ w = .int s (if b then 1 else 0) := by
  unfold readOperand at h
  cases v with
  | bool b =>
    have h : (Value.bool b).convert declared = .ok w := mapError_eq_ok.mp h
    cases declared with
    | bool =>
      cases h
      exact .inl rfl
    | float f => cases hd
    | int s =>
      have hc : s.contains (if b then 1 else 0) = true := by
        cases b
        · exact s.contains_zero
        · exact s.contains_one
      change (if s.contains (if b then 1 else 0) then _ else _) = _ at h
      rw [if_pos hc] at h
      exact .inr ⟨b, s, rfl, (Except.ok.inj h).symm⟩
  | int s i =>
    have hs : (Value.int s i).type.isBool = false := by cases s <;> rfl
    rw [if_neg (by simp [hs])] at h
    exact .inl (Except.ok.inj h).symm
  | float s x =>
    rw [if_neg (by simp [Value.type, ScalarType.isBool, ScalarType.family])] at h
    exact .inl (Except.ok.inj h).symm

theorem toInt?_readOperand {v w : Value} (h : readOperand declared v = .ok w)
    (hd : declared.isFloat = false) : w.toInt? = v.toInt? := by
  rcases readOperand_eq_ok h hd with rfl | ⟨b, s, rfl, rfl⟩
  · rfl
  · rfl

theorem wellFormed_readOperand {v w : Value} (h : readOperand declared v = .ok w)
    (hv : v.WellFormed) (hd : declared.isFloat = false) : w.WellFormed := by
  rcases readOperand_eq_ok h hd with rfl | ⟨b, s, rfl, rfl⟩
  · exact hv
  · cases b
    · exact s.contains_zero
    · exact s.contains_one

/-- The integer of an operand that was promoted to an integer type. -/
theorem operandNumber_of_type {v : Value} (hv : v.WellFormed)
    (ht : v.type = .bool ∨ ∃ s, v.type = .int s ∧ s.isSigned = t.isSigned ∧
      (ScalarType.int s).rank ≤ (ScalarType.int t).rank) :
    ∃ n, v.toInt? = some n ∧ t.contains n = true ∧
      operandNumber (ScalarType.int t).family v = .whole n := by
  cases v with
  | bool b =>
    refine ⟨if b then 1 else 0, rfl, ?_, ?_⟩
    · cases b
      · exact t.contains_zero
      · exact t.contains_one
    · cases t <;> rfl
  | int s i =>
    obtain ht | ⟨s', hs', hsign, hrank⟩ := ht
    · cases ht
    · cases hs'
      refine ⟨i, rfl, IntType.contains_of_rank_le hsign hrank hv, ?_⟩
      cases t <;> rfl
  | float f x =>
    obtain ht | ⟨s', hs', -⟩ := ht
    · cases ht
    · cases hs'

/-- Operands promoted to an integer type stand for integers of that type. -/
theorem integers_of_promote {operands vs : List Value} (hwf : ∀ v ∈ operands, v.WellFormed)
    (h : promote op declared operands = .ok ⟨.int t, vs⟩) :
    ∃ ns : List Int, operands.map Value.toInt? = ns.map some ∧
      (∀ n ∈ ns, t.contains n = true) ∧
      vs.map (operandNumber (ScalarType.int t).family) = ns.map .whole := by
  obtain ⟨hread, horder⟩ := promote_eq_ok.mp h
  have htypes : ∀ s ∈ vs.map Value.type ++ [declared], s = .bool ∨ ∃ s', s = .int s' ∧
      s'.isSigned = t.isSigned ∧ (ScalarType.int s').rank ≤ (ScalarType.int t).rank :=
    fun s hs => ScalarType.of_highestOrder_int horder hs
  have hd : declared.isFloat = false := by
    rcases htypes declared (by simp) with rfl | ⟨s, rfl, -⟩
    · rfl
    · cases s <;> rfl
  have hvs : ∀ v ∈ vs, v.type = .bool ∨ ∃ s, v.type = .int s ∧ s.isSigned = t.isSigned ∧
      (ScalarType.int s).rank ≤ (ScalarType.int t).rank :=
    fun v hv => htypes v.type (List.mem_append_left _ (List.mem_map_of_mem hv))
  have hall : List.Forall₂ (fun v w => readOperand declared v = .ok w) operands vs :=
    mapM_eq_ok.mp hread
  clear h hread horder htypes
  induction hall with
  | nil => exact ⟨[], rfl, by simp, rfl⟩
  | @cons v w operands vs hvw _ ih =>
    obtain ⟨ns, hints, hrange, hnums⟩ :=
      ih (fun x hx => hwf x (List.mem_cons_of_mem _ hx))
        (fun x hx => hvs x (List.mem_cons_of_mem _ hx))
    have hw : w.WellFormed := wellFormed_readOperand hvw (hwf v List.mem_cons_self) hd
    obtain ⟨n, hn, hc, hnum⟩ := operandNumber_of_type hw (hvs w List.mem_cons_self)
    refine ⟨n :: ns, ?_, ?_, ?_⟩
    · rw [List.map_cons, List.map_cons, hints, ← toInt?_readOperand hvw hd, hn]
    · intro m hm
      rcases List.mem_cons.mp hm with rfl | hm
      · exact hc
      · exact hrange m hm
    · rw [List.map_cons, List.map_cons, hnums, hnum]

end Alu

end Lockstep
