import Lockstep.Proofs.Run.Typed

/-!
# Properties of all entries

A property that every entry of the table of values has, and what keeps it.
-/

namespace Lockstep

/-- Every entry of the table of values has the property. -/
def Context.Entries (P : LaneValues → Prop) (c : Context) : Prop :=
  ∀ q v, c.values.get? q = some v → P v

/-- Every operand has the property. -/
def OperandsAre (P : LaneValues → Prop) (ops : List Operand) : Prop :=
  ∀ o ∈ ops, P o.values

variable {P Q : LaneValues → Prop} {p : Program} {c : Context} {ops : List Operand}

/-- An operand that is asked for in some form comes from one of the operands. -/
theorem OperandsAre.of_bind {α : Type} {i : Nat} {f : LaneValues → Option α} {a : α}
    (h : OperandsAre P ops) (ha : (ops[i]?.bind fun o => f o.values) = some a) :
    ∃ v : LaneValues, P v ∧ f v = some a := by
  obtain ⟨o, ho, hf⟩ := Option.bind_eq_some_iff.mp ha
  exact ⟨o.values, h o (List.mem_of_getElem? ho), hf⟩

namespace Context

theorem entries_start (point : Point) (warp : Warp) (buffers : List Buffer)
    (launchValues : List Value) : (Context.start point warp buffers launchValues).Entries P := by
  intro q v hv
  cases hv

namespace Entries

theorem mono (h : c.Entries P) (hPQ : ∀ v, P v → Q v) : c.Entries Q :=
  fun q v hv => hPQ v (h q v hv)

theorem operands (h : c.Entries P) {u : Uop} (hg : gather p u c = .ok ops) :
    OperandsAre P ops := by
  intro o ho
  obtain ⟨s, -, hs⟩ := mem_of_mapM hg ho
  exact h s o.values (operand_eq_ok.mp hs).1

theorem insert (h : c.Entries P) {q : Nat} {v : LaneValues} (hv : P v) :
    Entries P { c with values := c.values.insert q v } := by
  intro q' v' hv'
  by_cases he : q' = q
  · subst he
    have hget : some v = some v' := (Table.get?_insert_self _ _ _).symm.trans hv'
    cases hget
    exact hv
  · exact h q' v' ((Table.get?_insert_of_ne _ he _).symm.trans hv')

theorem define (h : c.Entries P) {v : LaneValues} (hv : P v) : (c.define v).Entries P :=
  h.insert hv

theorem erase (h : c.Entries P) (q : Nat) :
    Entries P { c with values := c.values.erase q } := by
  intro q' v hv
  by_cases he : q' = q
  · subst he
    cases (Table.get?_erase_self _ _).symm.trans hv
  · exact h q' v ((Table.get?_erase_of_ne _ he).symm.trans hv)

end Entries

end Context

end Lockstep
