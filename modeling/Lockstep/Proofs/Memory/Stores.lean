import Lockstep.Proofs.Memory.Element
import Mathlib.Data.List.Nodup

/-!
# Stores through one view

Values stored one after the other through the same view. An element keeps the last value
stored to it, and the others stay. Stores to different elements may be done in any order.
-/

namespace Lockstep

/-- The writes that store values at addresses of the view. -/
def View.stores (v : View) (es : List (Int × Value)) : List Write :=
  es.map fun e => ⟨v, .ok e.1, e.2⟩

namespace Memory

variable {m m' m₁ m₂ : Memory} {v : View} {i j a : Int} {x y : Value} {es es' : List (Int × Value)}

/-! ## One store -/

/-- What it takes to store a value, and what comes of it. -/
theorem exists_of_write (h : m.write v i x = .ok m') :
    ∃ b bytes, m.buffer? v.buffer = some b ∧ b.HasElement v.format i ∧
      encodeElement v.format x = .ok bytes ∧ m' = m.put v i bytes := by
  obtain ⟨b, hresolve, -⟩ := bind_eq_ok.mp h
  have hb := resolve_eq_ok.mp hresolve
  obtain ⟨hi, bytes, he, rfl⟩ := (write_eq_ok hb).mp h
  exact ⟨b, bytes, hb, hi, he, rfl⟩

theorem read_of_write (hx : x.WellFormed) (hf : v.format.isFloat = false)
    (h : m.write v i x = .ok m') : ∃ w, x.convert v.format = .ok w ∧ m'.read v i = .ok w := by
  obtain ⟨b, bytes, hb, hi, he, rfl⟩ := exists_of_write h
  exact ⟨_, decodeElement_of_encodeElement hx hf he,
    (replaces_put hb hi (length_encodeElement he)).read hi⟩

theorem read_of_write_of_ne (h : m.write v i x = .ok m') (hne : a ≠ i) :
    m'.read v a = m.read v a := by
  obtain ⟨b, bytes, hb, hi, he, rfl⟩ := exists_of_write h
  exact (replaces_put hb hi (length_encodeElement he)).read_of_ne hb hi.1 hne

theorem buffer?_of_write_of_ne {r : BufferRef} (h : m.write v i x = .ok m') (hr : r ≠ v.buffer) :
    m'.buffer? r = m.buffer? r := by
  obtain ⟨b, bytes, -, -, -, rfl⟩ := exists_of_write h
  exact buffer?_put_of_ne hr m i bytes

/-! ## Two stores -/

/-- Elements of one view share no bytes. -/
theorem put_comm {bytes bytes' : List UInt8} (hbytes : bytes.length = v.format.size)
    (hbytes' : bytes'.length = v.format.size) (hne : i.toNat ≠ j.toNat) (m : Memory) :
    (m.put v i bytes).put v j bytes' = (m.put v j bytes').put v i bytes := by
  obtain ⟨r, t⟩ := v
  have hapart (n : Nat) : Patch.Apart [⟨n, j.toNat * t.size, bytes'⟩]
      [⟨n, i.toNat * t.size, bytes⟩] := by
    rintro n' k ⟨w, hw, -, hlo, hhi⟩ ⟨w', hw', -, hlo', hhi'⟩
    obtain rfl := List.mem_singleton.mp hw
    obtain rfl := List.mem_singleton.mp hw'
    dsimp only at hlo hhi hlo' hhi' hbytes hbytes'
    rw [hbytes', ← Nat.succ_mul] at hhi
    rw [hbytes, ← Nat.succ_mul] at hhi'
    rcases Nat.lt_or_gt_of_ne hne with hlt | hlt
    · have hle : (i.toNat + 1) * t.size ≤ j.toNat * t.size := Nat.mul_le_mul_right _ hlt
      exact absurd (Nat.lt_of_lt_of_le hhi' (Nat.le_trans hle hlo)) (Nat.lt_irrefl _)
    · have hle : (j.toNat + 1) * t.size ≤ i.toNat * t.size := Nat.mul_le_mul_right _ hlt
      exact absurd (Nat.lt_of_lt_of_le hhi (Nat.le_trans hle hlo')) (Nat.lt_irrefl _)
  cases r with
  | global n => exact congrArg (fun bs => { m with globals := bs }) ((hapart n).commute m.globals)
  | scratch n => exact congrArg (fun bs => { m with scratch := bs }) ((hapart n).commute m.scratch)

/-- Whether a value can be stored does not depend on other stores. -/
theorem write_put {b : Buffer} {bytes bytes' : List UInt8} (hb : m.buffer? v.buffer = some b)
    (hj : b.HasElement v.format j) (hy : encodeElement v.format y = .ok bytes') :
    (m.put v i bytes).write v j y = .ok ((m.put v i bytes).put v j bytes') := by
  refine (write_eq_ok (buffer?_put bytes hb)).mpr ⟨?_, bytes', hy, rfl⟩
  exact (Buffer.hasElement_of_shape (by simp [Buffer.shape, Buffer.size])).mpr hj

theorem write_comm (h : m.write v i x = .ok m₁) (h' : m₁.write v j y = .ok m₂) (hne : i ≠ j) :
    ∃ m₃, m.write v j y = .ok m₃ ∧ m₃.write v i x = .ok m₂ := by
  obtain ⟨b, bytes, hb, hi, he, rfl⟩ := exists_of_write h
  obtain ⟨b', bytes', hb', hj, he', rfl⟩ := exists_of_write h'
  have hshape : b'.shape = b.shape := by
    rw [buffer?_put bytes hb] at hb'
    cases hb'
    simp [Buffer.shape, Buffer.size]
  rw [Buffer.hasElement_of_shape hshape] at hj
  refine ⟨m.put v j bytes', (write_eq_ok hb).mpr ⟨hj, bytes', he', rfl⟩, ?_⟩
  have hnat : i.toNat ≠ j.toNat := by
    have := hi.1
    have := hj.1
    omega
  rw [write_put hb hi he, put_comm (length_encodeElement he) (length_encodeElement he') hnat]

/-! ## Several stores -/

theorem perform_stores_cons {e : Int × Value} :
    m.perform (v.stores (e :: es)) = (m', .ok ()) ↔
      ∃ m₁, m.write v e.1 e.2 = .ok m₁ ∧ m₁.perform (v.stores es) = (m', .ok ()) := by
  simp only [View.stores, List.map_cons, perform]
  cases m.write v e.1 e.2 with
  | error f => simp
  | ok m₁ => simp

theorem perform_stores_append : m.perform (v.stores (es ++ es')) = (m', .ok ()) ↔
    ∃ m₁, m.perform (v.stores es) = (m₁, .ok ()) ∧ m₁.perform (v.stores es') = (m', .ok ()) := by
  induction es generalizing m with
  | nil => simp [View.stores, perform]
  | cons e es ih =>
    rw [List.cons_append]
    simp only [perform_stores_cons, ih]
    constructor
    · rintro ⟨m₁, hm₁, m₂, hm₂, h⟩
      exact ⟨m₂, ⟨m₁, hm₁, hm₂⟩, h⟩
    · rintro ⟨m₂, ⟨m₁, hm₁, hm₂⟩, h⟩
      exact ⟨m₁, hm₁, m₂, hm₂, h⟩

/-- An element that nothing is stored to stays. -/
theorem read_of_perform_stores (h : m.perform (v.stores es) = (m', .ok ()))
    (ha : ∀ e ∈ es, e.1 ≠ a) : m'.read v a = m.read v a := by
  induction es generalizing m with
  | nil =>
    cases h
    rfl
  | cons e es ih =>
    obtain ⟨m₁, hm₁, h⟩ := perform_stores_cons.mp h
    rw [ih h fun e' he' => ha e' (List.mem_cons_of_mem _ he'),
      read_of_write_of_ne hm₁ (ha e List.mem_cons_self).symm]

theorem buffer?_of_perform_stores {r : BufferRef} (h : m.perform (v.stores es) = (m', .ok ()))
    (hr : r ≠ v.buffer) : m'.buffer? r = m.buffer? r := by
  induction es generalizing m with
  | nil =>
    cases h
    rfl
  | cons e es ih =>
    obtain ⟨m₁, hm₁, h⟩ := perform_stores_cons.mp h
    rw [ih h, buffer?_of_write_of_ne hm₁ hr]

/-- The last value stored to an element is read back as it was converted. -/
theorem read_of_last_store (hx : x.WellFormed) (hf : v.format.isFloat = false)
    (h : m.perform (v.stores (es ++ (a, x) :: es')) = (m', .ok ())) (ha : ∀ e ∈ es', e.1 ≠ a) :
    ∃ w, x.convert v.format = .ok w ∧ m'.read v a = .ok w := by
  obtain ⟨m₁, -, h⟩ := perform_stores_append.mp h
  obtain ⟨m₂, hm₂, h⟩ := perform_stores_cons.mp h
  rw [read_of_perform_stores h ha]
  exact read_of_write hx hf hm₂

/-- Every value stored to an element of its own is read back. -/
theorem read_of_mem_stores (hx : x.WellFormed) (hf : v.format.isFloat = false)
    (hnodup : (es.map Prod.fst).Nodup) (h : m.perform (v.stores es) = (m', .ok ()))
    (he : (a, x) ∈ es) : ∃ w, x.convert v.format = .ok w ∧ m'.read v a = .ok w := by
  obtain ⟨before, after, rfl⟩ := List.append_of_mem he
  rw [List.map_append, List.map_cons] at hnodup
  have hafter : a ∉ after.map Prod.fst := (List.nodup_cons.mp hnodup.of_append_right).1
  apply read_of_last_store hx hf h
  rintro e he' rfl
  exact hafter (List.mem_map_of_mem he')

/-- Stores to different elements do not depend on their order. -/
theorem perform_stores_of_perm (hperm : es.Perm es') (hnodup : (es.map Prod.fst).Nodup)
    (h : m.perform (v.stores es) = (m', .ok ())) : m.perform (v.stores es') = (m', .ok ()) := by
  -- only the swap of two neighbours reorders writes, and these two go to different elements
  induction hperm generalizing m with
  | nil => exact h
  | cons e _ ih =>
    obtain ⟨m₁, hm₁, h⟩ := perform_stores_cons.mp h
    exact perform_stores_cons.mpr ⟨m₁, hm₁, ih (List.nodup_cons.mp hnodup).2 h⟩
  | swap e e' es =>
    obtain ⟨m₁, hm₁, h⟩ := perform_stores_cons.mp h
    obtain ⟨m₂, hm₂, h⟩ := perform_stores_cons.mp h
    have hne : e'.1 ≠ e.1 := fun heq =>
      (List.nodup_cons.mp hnodup).1 (heq ▸ List.mem_cons_self)
    obtain ⟨m₃, hm₃, hm₂⟩ := write_comm hm₁ hm₂ hne
    exact perform_stores_cons.mpr ⟨m₃, hm₃, perform_stores_cons.mpr ⟨m₂, hm₂, h⟩⟩
  | trans hperm _ ih ih' =>
    exact ih' ((hperm.map Prod.fst).nodup_iff.mp hnodup) (ih hnodup h)

/-- The same for any list of the writes. -/
theorem perform_of_perm {ws : List Write} (hperm : ws.Perm (v.stores es))
    (hnodup : (es.map Prod.fst).Nodup) (h : m.perform (v.stores es) = (m', .ok ())) :
    m.perform ws = (m', .ok ()) := by
  have hcomp := List.eq_map_comp_perm fun e : Int × Value => (⟨v, .ok e.1, e.2⟩ : Write)
  obtain ⟨es', rfl, hes⟩ := (congrFun (congrFun hcomp ws) es).mpr hperm
  exact perform_stores_of_perm hes.symm hnodup h

end Memory

end Lockstep
