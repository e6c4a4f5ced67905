import Lockstep.Buffer.Basic
import Mathlib.Data.List.Pairwise

/-!
# Patches

What a program leaves in the buffers of its caller is a list of patches: runs of
bytes put in place one after the other. A byte that some patch covers does not
depend on what was there before, and patches that cover no byte in common
commute.
-/

namespace Lockstep

/-- The format and the number of bytes of a buffer. -/
def Buffer.shape (b : Buffer) : ScalarType × Nat := (b.format, b.size)

def shapes (bs : List Buffer) : List (ScalarType × Nat) := bs.map Buffer.shape

/-- A byte of one of the buffers. -/
def byte? (bs : List Buffer) (n k : Nat) : Option UInt8 := bs[n]?.bind (·.bytes[k]?)

/-- Bytes to put into one of the buffers. -/
structure Patch where
  buffer : Nat
  start : Nat
  bytes : List UInt8
  deriving DecidableEq

namespace Patch

def apply (w : Patch) (bs : List Buffer) : List Buffer :=
  bs.modify w.buffer fun b => { b with bytes := overwrite b.bytes w.start w.bytes }

/-- The patches in order. -/
def applyAll (ws : List Patch) (bs : List Buffer) : List Buffer :=
  ws.foldl (fun bs w => w.apply bs) bs

/-- Byte `k` of buffer `n` is one of those put in place. -/
def Covers (w : Patch) (n k : Nat) : Prop :=
  w.buffer = n ∧ w.start ≤ k ∧ k < w.start + w.bytes.length

instance (w : Patch) (n k : Nat) : Decidable (w.Covers n k) :=
  inferInstanceAs (Decidable (w.buffer = n ∧ w.start ≤ k ∧ k < w.start + w.bytes.length))

end Patch

/-! ## Overwriting -/

@[simp] theorem size_overwrite (bytes : Array UInt8) (start : Nat) (l : List UInt8) :
    (overwrite bytes start l).size = bytes.size := by
  induction l generalizing bytes start with
  | nil => rfl
  | cons b l ih => rw [overwrite, ih, Array.size_setIfInBounds]

theorem getElem?_overwrite_of_lt {bytes : Array UInt8} {start k : Nat} {l : List UInt8}
    (h : k < start) : (overwrite bytes start l)[k]? = bytes[k]? := by
  induction l generalizing bytes start with
  | nil => rfl
  | cons b l ih =>
    rw [overwrite, ih (Nat.lt_succ_of_lt h), Array.getElem?_setIfInBounds_ne (Nat.ne_of_gt h)]

theorem getElem?_overwrite_of_le {bytes : Array UInt8} {start k : Nat} {l : List UInt8}
    (h : start + l.length ≤ k) : (overwrite bytes start l)[k]? = bytes[k]? := by
  induction l generalizing bytes start with
  | nil => rfl
  | cons b l ih =>
    rw [List.length_cons] at h
    rw [overwrite, ih (by omega), Array.getElem?_setIfInBounds_ne (by omega)]

/-- A byte put in place does not depend on the one that was there. -/
theorem getElem?_overwrite {bytes : Array UInt8} {start k : Nat} {l : List UInt8}
    (h : start ≤ k) (hk : k < start + l.length) :
    (overwrite bytes start l)[k]? = bytes[k]?.map fun _ => l.getD (k - start) 0 := by
  induction l generalizing bytes start with
  | nil => exact absurd hk (Nat.not_lt.mpr h)
  | cons b l ih =>
    rw [overwrite]
    rcases Nat.eq_or_lt_of_le h with rfl | hlt
    · rw [getElem?_overwrite_of_lt (Nat.lt_succ_self _), Array.getElem?_setIfInBounds_self,
        Nat.sub_self]
      by_cases hsize : start < bytes.size
      · simp [hsize]
      · simp [hsize]
    · rw [List.length_cons] at hk
      rw [ih hlt (by omega), Array.getElem?_setIfInBounds_ne (by omega),
        show k - start = k - (start + 1) + 1 by omega, List.getD_cons_succ]

/-! ## Shapes and bytes -/

variable {bs gs : List Buffer} {n k : Nat}

theorem shape_getElem? (h : shapes bs = shapes gs) (n : Nat) :
    bs[n]?.map Buffer.shape = gs[n]?.map Buffer.shape := by
  have := congrArg (·[n]?) h
  simpa [shapes] using this

/-- Buffers of the same shapes have their bytes at the same places. -/
theorem map_byte? (h : shapes bs = shapes gs) (x : UInt8) :
    ((byte? bs n k).map fun _ => x) = (byte? gs n k).map fun _ => x := by
  have hn := shape_getElem? h n
  unfold byte?
  cases hb : bs[n]? with
  | none =>
    rw [hb] at hn
    rw [Option.map_eq_none_iff.mp hn.symm]
  | some b =>
    rw [hb] at hn
    obtain ⟨g, hg, hshape⟩ := Option.map_eq_some_iff.mp hn.symm
    have hsize : g.bytes.size = b.bytes.size := congrArg Prod.snd hshape
    rw [hg]
    by_cases hk : k < b.bytes.size
    · simp [hk, hsize]
    · simp [hk, hsize]

/-- Shapes and bytes are all that there is to buffers. -/
theorem eq_of_bytes (h : shapes bs = shapes gs) (hbyte : ∀ n k, byte? bs n k = byte? gs n k) :
    bs = gs := by
  refine List.ext_getElem? fun n => ?_
  have hn := shape_getElem? h n
  cases hb : bs[n]? with
  | none =>
    rw [hb] at hn
    exact (Option.map_eq_none_iff.mp hn.symm).symm
  | some b =>
    rw [hb] at hn
    obtain ⟨g, hg, hshape⟩ := Option.map_eq_some_iff.mp hn.symm
    have hbytes : b.bytes = g.bytes := by
      refine Array.ext_getElem? fun k => ?_
      simpa [byte?, hb, hg] using hbyte n k
    have hformat : b.format = g.format := (congrArg Prod.fst hshape).symm
    rw [hg]
    cases b
    cases g
    cases hformat
    cases hbytes
    rfl

namespace Patch

variable {w w' : Patch} {ws : List Patch}

@[simp] theorem applyAll_cons (w : Patch) (ws : List Patch) (bs : List Buffer) :
    applyAll (w :: ws) bs = applyAll ws (w.apply bs) := rfl

theorem applyAll_append (ws ws' : List Patch) (bs : List Buffer) :
    applyAll (ws ++ ws') bs = applyAll ws' (applyAll ws bs) :=
  List.foldl_append

theorem getElem?_apply (w : Patch) (bs : List Buffer) (n : Nat) :
    (w.apply bs)[n]? = bs[n]?.map fun b =>
      if w.buffer = n then { b with bytes := overwrite b.bytes w.start w.bytes } else b :=
  List.getElem?_modify _ _ _ _

@[simp] theorem shapes_apply (w : Patch) (bs : List Buffer) : shapes (w.apply bs) = shapes bs := by
  refine List.ext_getElem? fun n => ?_
  simp only [shapes, List.getElem?_map, getElem?_apply, Option.map_map]
  congr 1
  funext b
  by_cases h : w.buffer = n
  · simp [h, Buffer.shape, Buffer.size]
  · simp [h]

@[simp] theorem shapes_applyAll (ws : List Patch) (bs : List Buffer) :
    shapes (applyAll ws bs) = shapes bs := by
  induction ws generalizing bs with
  | nil => rfl
  | cons w ws ih => rw [applyAll_cons, ih, shapes_apply]

theorem getElem?_apply_of_ne (h : w.buffer ≠ n) : (w.apply bs)[n]? = bs[n]? := by
  simp [getElem?_apply, h]

/-- A buffer that no patch names stays as it is. -/
theorem getElem?_applyAll_of_ne (h : ∀ w ∈ ws, w.buffer ≠ n) : (applyAll ws bs)[n]? = bs[n]? := by
  induction ws generalizing bs with
  | nil => rfl
  | cons w ws ih =>
    rw [applyAll_cons, ih fun w' hw' => h w' (List.mem_cons_of_mem _ hw'),
      getElem?_apply_of_ne (h w List.mem_cons_self)]

/-- The same patches keep equal buffers equal. -/
theorem getElem?_applyAll_congr (h : bs[n]? = gs[n]?) :
    (applyAll ws bs)[n]? = (applyAll ws gs)[n]? := by
  induction ws generalizing bs gs with
  | nil => exact h
  | cons w ws ih =>
    refine ih ?_
    rw [getElem?_apply, getElem?_apply, h]

theorem byte?_apply (w : Patch) (bs : List Buffer) (n k : Nat) :
    byte? (w.apply bs) n k =
      if w.Covers n k then (byte? bs n k).map fun _ => w.bytes.getD (k - w.start) 0
      else byte? bs n k := by
  by_cases hn : w.buffer = n
  · have hget : (w.apply bs)[n]? =
        bs[n]?.map fun b => { b with bytes := overwrite b.bytes w.start w.bytes } := by
      rw [apply, hn, List.getElem?_modify_eq]
      rfl
    rw [byte?, hget, byte?, Option.bind_map]
    cases bs[n]? with
    | none => simp
    | some b =>
      change (overwrite b.bytes w.start w.bytes)[k]? = if _ then b.bytes[k]?.map _ else b.bytes[k]?
      split
      · rename_i h
        exact getElem?_overwrite h.2.1 h.2.2
      · rename_i h
        by_cases hk : k < w.start
        · exact getElem?_overwrite_of_lt hk
        · refine getElem?_overwrite_of_le (Nat.not_lt.mp fun hlt => h ⟨hn, Nat.not_lt.mp hk, hlt⟩)
  · rw [if_neg fun h => hn h.1, byte?, getElem?_apply_of_ne hn, byte?]

theorem byte?_apply_of_not_covers (h : ¬ w.Covers n k) : byte? (w.apply bs) n k = byte? bs n k := by
  rw [byte?_apply, if_neg h]

/-- A byte that no patch covers stays as it is. -/
theorem byte?_applyAll_of_not_covers (h : ∀ w ∈ ws, ¬ w.Covers n k) :
    byte? (applyAll ws bs) n k = byte? bs n k := by
  induction ws generalizing bs with
  | nil => rfl
  | cons w ws ih =>
    rw [applyAll_cons, ih fun w' hw' => h w' (List.mem_cons_of_mem _ hw'),
      byte?_apply_of_not_covers (h w List.mem_cons_self)]

theorem byte?_apply_of_covers (hs : shapes bs = shapes gs) (h : w.Covers n k) :
    byte? (w.apply bs) n k = byte? (w.apply gs) n k := by
  rw [byte?_apply, byte?_apply, if_pos h, if_pos h, map_byte? hs]

/-- A byte that some patch covers does not depend on the buffers. -/
theorem byte?_applyAll_of_covers (hs : shapes bs = shapes gs) (h : ∃ w ∈ ws, w.Covers n k) :
    byte? (applyAll ws bs) n k = byte? (applyAll ws gs) n k := by
  induction ws generalizing bs gs with
  | nil =>
    obtain ⟨w, hw, -⟩ := h
    cases hw
  | cons w ws ih =>
    by_cases hlater : ∃ w' ∈ ws, w'.Covers n k
    · exact ih (by rw [shapes_apply, shapes_apply, hs]) hlater
    · have hrest : ∀ w' ∈ ws, ¬ w'.Covers n k := fun w' hw' hc => hlater ⟨w', hw', hc⟩
      obtain ⟨w', hw', hc⟩ := h
      rcases List.mem_cons.mp hw' with rfl | hw'
      · rw [applyAll_cons, applyAll_cons, byte?_applyAll_of_not_covers hrest,
          byte?_applyAll_of_not_covers hrest, byte?_apply_of_covers hs hc]
      · exact absurd hc (hrest w' hw')

/-- Patches put in place twice are there as if they had been put once. -/
theorem applyAll_idem (ws : List Patch) (bs : List Buffer) :
    applyAll ws (applyAll ws bs) = applyAll ws bs := by
  refine eq_of_bytes (shapes_applyAll _ _) fun n k => ?_
  by_cases h : ∃ w ∈ ws, w.Covers n k
  · exact byte?_applyAll_of_covers (shapes_applyAll _ _) h
  · exact byte?_applyAll_of_not_covers fun w hw hc => h ⟨w, hw, hc⟩

/-- The lists of patches cover no byte in common. -/
def Apart (ws ws' : List Patch) : Prop :=
  ∀ n k, (∃ w ∈ ws, w.Covers n k) → ¬ ∃ w ∈ ws', w.Covers n k

/-- The lists of patches may be put in place either way round. -/
def Commute (ws ws' : List Patch) : Prop :=
  ∀ bs, applyAll ws (applyAll ws' bs) = applyAll ws' (applyAll ws bs)

instance : Std.Symm Commute := ⟨fun _ _ h bs => (h bs).symm⟩

theorem Apart.commute {ws' : List Patch} (h : Apart ws ws') : Commute ws ws' := by
  intro bs
  refine eq_of_bytes (by simp) fun n k => ?_
  by_cases hc : ∃ w ∈ ws, w.Covers n k
  · have hnot : ∀ w ∈ ws', ¬ w.Covers n k := fun w hw hcov => h n k hc ⟨w, hw, hcov⟩
    rw [byte?_applyAll_of_not_covers hnot]
    exact byte?_applyAll_of_covers (shapes_applyAll _ _) hc
  · have hnot : ∀ w ∈ ws, ¬ w.Covers n k := fun w hw hcov => hc ⟨w, hw, hcov⟩
    rw [byte?_applyAll_of_not_covers hnot]
    by_cases hc' : ∃ w ∈ ws', w.Covers n k
    · exact byte?_applyAll_of_covers (shapes_applyAll _ _).symm hc'
    · have hnot' : ∀ w ∈ ws', ¬ w.Covers n k := fun w hw hcov => hc' ⟨w, hw, hcov⟩
      rw [byte?_applyAll_of_not_covers hnot', byte?_applyAll_of_not_covers hnot',
        byte?_applyAll_of_not_covers hnot]

theorem applyAll_flatten (wss : List (List Patch)) (bs : List Buffer) :
    applyAll wss.flatten bs = wss.foldl (fun bs ws => applyAll ws bs) bs := by
  induction wss generalizing bs with
  | nil => rfl
  | cons ws wss ih => rw [List.flatten_cons, applyAll_append, ih, List.foldl_cons]

/-- Lists of patches that are pairwise apart may be put in place in any order. -/
theorem applyAll_flatten_of_perm {wss wss' : List (List Patch)} (hperm : wss'.Perm wss)
    (hapart : wss.Pairwise Apart) (bs : List Buffer) :
    applyAll wss'.flatten bs = applyAll wss.flatten bs := by
  have hcommute : ∀ ⦃ws⦄, ws ∈ wss → ∀ ⦃ws'⦄, ws' ∈ wss → Commute ws ws' :=
    List.Pairwise.forall_of_forall (fun _ _ _ => rfl) (hapart.imp Apart.commute)
  rw [applyAll_flatten, applyAll_flatten]
  refine (List.Perm.foldl_eq' hperm.symm (fun ws hws ws' hws' gs => ?_) bs).symm
  exact hcommute hws' hws gs

end Patch

end Lockstep
