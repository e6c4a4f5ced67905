import Lockstep.Proofs.Kernel.LastStore
import Lockstep.Proofs.Launch.Accounting
import Lockstep.Proofs.Step.Integers
import Lockstep.Proofs.Step.Stretch

/-!
# Adding two buffers over a grid

A program that adds two buffers element by element, one element per lane of each grid
point. The grid points fill the buffer of sums in order, up to the first sum that does not
fit.
-/

namespace Lockstep

/-- Puts `a[i] + b[i]` into `out[i]`, where `i` counts the lanes of the grid points, `width`
of them each. -/
def Program.vectorAdd (width : Nat) : Program where
  uops :=
    [⟨.defineGlobal, some int32, [], .name "out"⟩,
     ⟨.defineGlobal, some int32, [], .name "a"⟩,
     ⟨.defineGlobal, some int32, [], .name "b"⟩,
     ⟨.special, some int32, [], .axis 0 "gidx0"⟩,
     ⟨.special, some int32, [], .axis 0 "lidx0"⟩,
     ⟨.const, some int32, [], .literal (.int width)⟩,
     ⟨.alu, some int32, [3, 5], .operation .mul⟩,
     ⟨.alu, some int32, [6, 4], .operation .add⟩,
     ⟨.load, some int32, [1, 7], .none⟩,
     ⟨.load, some int32, [2, 7], .none⟩,
     ⟨.alu, some int32, [8, 9], .operation .add⟩,
     ⟨.store, none, [0, 7, 10], .none⟩]

theorem Program.validate_vectorAdd (width : Nat) : (vectorAdd width).validate = .ok () := rfl

namespace VectorAdd

/-- The sum of the elements at a position. -/
def sum (a b : Buffer) (i : Nat) : Int := a.intAt .int32 i + b.intAt .int32 i

/-- A line of lanes, or of grid points. -/
def line (n : Nat) : Point := ⟨n, 1, 1⟩

/-- So many sums from a position on, with their positions. -/
def entries (a b : Buffer) (m count : Nat) : List (Nat × Int) :=
  (List.range count).map fun j => (m + j, sum a b (m + j))

/-- The first `m` sums are in place and the rest of the buffer is as it was. -/
structure Filled (out a b : Buffer) (m : Nat) (cur : Buffer) : Prop where
  shape : cur.shape = out.shape
  done : ∀ i, i < m → cur.readAs? (.int .int32) i = some (.int .int32 (sum a b i))
  rest : ∀ i, m ≤ i → cur.readAs? (.int .int32) i = out.readAs? (.int .int32) i

section

variable {width grid k i : Nat} {out a b cur : Buffer} {rest : List Buffer} {vs : List Value}

theorem volume_line (n : Nat) : (line n).volume = n := by
  simp [line, Point.volume]

theorem points_line (n : Nat) : Grid.points (line n) = (List.range n).map fun k => ⟨k, 0, 0⟩ := by
  rw [Grid.points, volume_line]
  refine List.map_congr_left fun k hk => ?_
  have hlt : k < n := List.mem_range.mp hk
  simp [Grid.point, line, Nat.mod_eq_of_lt hlt, Nat.div_eq_of_lt hlt]

/-- The positions of the sums of a grid point lie within the buffers. -/
theorem position_le (hk : k < grid) (hi : i ≤ width) : k * width + i ≤ grid * width := by
  have hle : (k + 1) * width ≤ grid * width := Nat.mul_le_mul_right width hk
  rw [Nat.succ_mul] at hle
  omega

theorem contains_position (hk : k < 2 ^ 31) (hw : width < 2 ^ 31) (hi : i ≤ width) :
    IntType.int32.widest.contains ((k * width + i : Nat) : Int) = true := by
  have hlt : k * width + i < 2 ^ 63 := by
    have hmul : k * width ≤ 2 ^ 31 * 2 ^ 31 :=
      Nat.mul_le_mul (Nat.le_of_lt hk) (Nat.le_of_lt hw)
    omega
  rw [contains_widest_int32_iff]
  omega

theorem contains_sum (a b : Buffer) (i : Nat) :
    IntType.int32.widest.contains (sum a b i) = true := by
  have ha := contains_int32_iff.mp (a.contains_intAt .int32 i)
  have hb := contains_int32_iff.mp (b.contains_intAt .int32 i)
  rw [contains_widest_int32_iff, sum]
  omega

/-! ## One grid point -/

/-- A line of lanes. -/
abbrev lanes (width : Nat) : Warp := ⟨line width⟩

theorem laneCount_lanes (width : Nat) : (lanes width).laneCount = width := volume_line width

/-- Coordinates along an axis are held as they are. -/
theorem hold_coordinates (ns : List Nat) (f : Nat → Nat)
    (h : ∀ j m, ns[j]? = some m → m = f j ∧ m < 2 ^ 31) :
    ∃ ls, ns.mapM (fun (m : Nat) => conversion (Value.ofInt m (.int .int32))) = .ok ls ∧
      IntType.int32.HoldLanes ns.length (fun j => f j) ls := by
  refine IntType.HoldLanes.of_mapM rfl fun j m hm => ?_
  obtain ⟨rfl, hlt⟩ := h j m hm
  have hfit := contains_int32_of_lt hlt
  exact ⟨.int .int32 (f j), by rw [Value.ofInt, if_pos hfit]; rfl, IntType.holds_of_contains hfit⟩

theorem coordinates_lanes (width : Nat) :
    (lanes width).lanes.mapM (·.axis? 0) = some (List.range width) := by
  rw [Warp.lanes, points_line, mapM_eq_some, List.forall₂_map_left_iff]
  exact List.forall₂_same.mpr fun _ _ => rfl

/-- One of the buffers, on every lane. -/
def view (width n : Nat) : Operand :=
  ⟨.buffer ((lanes width).splat ⟨.global n, .int .int32⟩), int32⟩

/-- What the buffers, the coordinates and the width leave. -/
def coordinates (width : Nat) (gs ls : Lanes) : List Operand :=
  [view width 0, view width 1, view width 2, ⟨.scalar gs, int32⟩, ⟨.scalar ls, int32⟩,
   ⟨.scalar ((lanes width).splat (.int .int32 width)), int32⟩]

/-- What the instructions up to the position of each lane leave. -/
def head (width : Nat) (gs ls ms xs : Lanes) : List Operand :=
  coordinates width gs ls ++ [⟨.scalar ms, int32⟩, ⟨.scalar xs, int32⟩]

/-- Each lane holds what belongs to its position in the buffers. -/
abbrev HoldAt (width k : Nat) (f : Nat → Int) (ls : Lanes) : Prop :=
  IntType.int32.HoldLanes (lanes width).laneCount (fun j => f (k * width + j)) ls

theorem hold_grid (width : Nat) (hk : k < 2 ^ 31) :
    ∃ gs, ((lanes width).splat k).mapM
        (fun (m : Nat) => conversion (Value.ofInt m (.int .int32))) = .ok gs ∧
      IntType.int32.HoldLanes (lanes width).laneCount (fun _ => k) gs := by
  obtain ⟨gs, hgs, hgsh⟩ := hold_coordinates ((lanes width).splat k) (fun _ => k) (by
    intro j m hm
    obtain rfl := List.eq_of_mem_replicate (List.mem_of_getElem? hm)
    exact ⟨rfl, hk⟩)
  rw [Warp.splat, List.length_replicate] at hgsh
  exact ⟨gs, hgs, hgsh⟩

theorem hold_lanes (hwidth : width < 2 ^ 31) :
    ∃ ls, (List.range width).mapM
        (fun (m : Nat) => conversion (Value.ofInt m (.int .int32))) = .ok ls ∧
      IntType.int32.HoldLanes (lanes width).laneCount (fun j => j) ls := by
  obtain ⟨ls, hls, hlsh⟩ := hold_coordinates (List.range width) (fun j => j) (by
    intro j m hm
    obtain ⟨hj, rfl⟩ := List.getElem?_eq_some_iff.mp hm
    rw [List.length_range] at hj
    rw [List.getElem_range]
    exact ⟨rfl, Nat.lt_trans hj hwidth⟩)
  rw [List.length_range, ← laneCount_lanes width] at hlsh
  exact ⟨ls, hls, hlsh⟩

/-- The buffers are bound and every lane has its coordinates. -/
theorem coordinates_of_start (hk : k < 2 ^ 31) (hwidth : width < 2 ^ 31)
    (hcur : cur.fits (.int .int32)) (ha : a.fits (.int .int32)) (hb : b.fits (.int .int32))
    (rest : List Buffer) (vs : List Value) :
    ∃ c gs ls,
      Leads (.vectorAdd width) 6 (.start ⟨k, 0, 0⟩ (lanes width) (cur :: a :: b :: rest) vs) c ∧
      Stretch (.start ⟨k, 0, 0⟩ (lanes width) (cur :: a :: b :: rest) vs)
        (coordinates width gs ls) 3 0 c ∧
      IntType.int32.HoldLanes (lanes width).laneCount (fun _ => k) gs ∧
      IntType.int32.HoldLanes (lanes width).laneCount (fun j => j) ls := by
  obtain ⟨gs, hgs, hgsh⟩ := hold_grid width hk
  obtain ⟨ls, hls, hlsh⟩ := hold_lanes hwidth
  have hconst : Literal.toValue (.int width) (.int .int32) = .ok (.int .int32 width) :=
    if_pos (contains_int32_of_lt hwidth)
  have h₀ := Stretch.start ⟨k, 0, 0⟩ (lanes width) (cur :: a :: b :: rest) vs
  obtain ⟨c₁, hs₁, h₁⟩ := h₀.bindsGlobal (p := .vectorAdd width) rfl rfl hcur
  obtain ⟨c₂, hs₂, h₂⟩ := h₁.bindsGlobal (p := .vectorAdd width) rfl rfl ha
  obtain ⟨c₃, hs₃, h₃⟩ := h₂.bindsGlobal (p := .vectorAdd width) rfl rfl hb
  obtain ⟨c₄, hs₄, h₄⟩ := h₃.special (p := .vectorAdd width) rfl (by decide) rfl hgs
  obtain ⟨c₅, hs₅, h₅⟩ :=
    h₄.special (p := .vectorAdd width) rfl (by decide) (coordinates_lanes width) hls
  obtain ⟨c, hs, h⟩ := h₅.constant (p := .vectorAdd width) rfl (.inl rfl) hconst
  exact ⟨c, gs, ls, .step hs₁ (.step hs₂ (.step hs₃ (.step hs₄ (.step hs₅ (.one hs))))), h,
    hgsh, hlsh⟩

/-- Every lane works out its position. -/
theorem positions_of_coordinates {c₀ c : Context} {gs ls : Lanes}
    (h : Stretch c₀ (coordinates width gs ls) 3 0 c) (hk : k < 2 ^ 31) (hwidth : width < 2 ^ 31)
    (hgs : IntType.int32.HoldLanes (lanes width).laneCount (fun _ => k) gs)
    (hls : IntType.int32.HoldLanes (lanes width).laneCount (fun j => j) ls) :
    ∃ d ms xs, Leads (.vectorAdd width) 2 c d ∧ Stretch c₀ (head width gs ls ms xs) 3 0 d ∧
      HoldAt width k (fun i => i) xs := by
  have hws : IntType.int32.HoldLanes _ (fun _ => (width : Int)) _ := .replicate
    (IntType.holds_of_contains (contains_int32_of_lt hwidth)) (lanes width).laneCount
  -- the products need not fit the declared type, only the widest
  obtain ⟨ms, hms, hmsh⟩ := alu_of_holds (show AluOp.mul ≠ .select by simp) hgs hws
    (r := fun _ => (k * width : Nat)) (fun T j => by rw [Nat.cast_mul]; rfl)
    (fun j _ => contains_position hk hwidth (Nat.zero_le width))
  obtain ⟨c₁, hs₁, h₁⟩ := h.alu (p := .vectorAdd width) rfl (.cons rfl (.cons rfl .nil)) hms
  obtain ⟨xs, hxs, hxsh⟩ := alu_of_holds (show AluOp.add ≠ .select by simp) hmsh hls
    (r := fun j => (k * width + j : Nat)) (fun T j => by rw [Nat.cast_add]; rfl)
    (fun j hj => contains_position hk hwidth (Nat.le_of_lt (laneCount_lanes width ▸ hj)))
  obtain ⟨d, hs, h₂⟩ := h₁.alu (p := .vectorAdd width) rfl (.cons rfl (.cons rfl .nil)) hxs
  exact ⟨d, ms, xs, .step hs₁ (.one hs), h₂, hxsh⟩

/-- Every lane loads its two elements and adds them. -/
theorem sums_of_positions {c₀ c : Context} {gs ls ms xs : Lanes}
    (h : Stretch c₀ (head width gs ls ms xs) 3 0 c) (hxs : HoldAt width k (fun i => i) xs)
    (hglobals : c₀.memory.globals = cur :: a :: b :: rest) (hk : k < grid)
    (ha : grid * width ≤ a.lengthAs (.int .int32)) (hb : grid * width ≤ b.lengthAs (.int .int32)) :
    ∃ d as bs ys, Leads (.vectorAdd width) 3 c d ∧
      Stretch c₀ (head width gs ls ms xs ++
        [⟨.scalar as, int32⟩, ⟨.scalar bs, int32⟩, ⟨.scalar ys, int32⟩]) 3 0 d ∧
      HoldAt width k (sum a b) ys := by
  have hin : ∀ j, j < (lanes width).laneCount → k * width + j < grid * width :=
    fun j hj => position_le (i := j + 1) hk (laneCount_lanes width ▸ hj)
  have ha' : c.memory.buffer? (.global 1) = some a := by
    rw [Memory.buffer?, h.globals, hglobals]
    rfl
  obtain ⟨as, has, hash⟩ := load_of_holds ha' hxs fun j hj => Nat.lt_of_lt_of_le (hin j hj) ha
  obtain ⟨c₁, hs₁, h₁⟩ := h.load (p := .vectorAdd width) rfl (.cons rfl (.cons rfl .nil)) has
  have hb' : c₁.memory.buffer? (.global 2) = some b := by
    rw [Memory.buffer?, h₁.globals, hglobals]
    rfl
  obtain ⟨bs, hbs, hbsh⟩ := load_of_holds hb' hxs fun j hj => Nat.lt_of_lt_of_le (hin j hj) hb
  obtain ⟨c₂, hs₂, h₂⟩ := h₁.load (p := .vectorAdd width) rfl (.cons rfl (.cons rfl .nil)) hbs
  obtain ⟨ys, hys, hysh⟩ := alu_of_holds (show AluOp.add ≠ .select by simp) hash hbsh
    (r := fun j => sum a b (k * width + j)) (fun T j => rfl) (fun j _ => contains_sum a b _)
  obtain ⟨d, hs, h₃⟩ := h₂.alu (p := .vectorAdd width) rfl (.cons rfl (.cons rfl .nil)) hys
  exact ⟨d, as, bs, ys, .step hs₁ (.step hs₂ (.one hs)), h₃, hysh⟩

/-! ## The store -/

/-- The program comes to the store of the sums of its grid point. -/
theorem storesLast_of_start (hk : k < grid) (hgrid : grid < 2 ^ 31) (hwidth : width < 2 ^ 31)
    (hcur : cur.fits (.int .int32)) (ha : a.Spans (.int .int32) (grid * width))
    (hb : b.Spans (.int .int32) (grid * width)) (rest : List Buffer) (vs : List Value) :
    ∃ c,
      Leads (.vectorAdd width) 11 (.start ⟨k, 0, 0⟩ (lanes width) (cur :: a :: b :: rest) vs) c ∧
      StoresLast (.vectorAdd width) .int32 cur (a :: b :: rest) (entries a b (k * width) width)
        c := by
  have hk' : k < 2 ^ 31 := Nat.lt_trans hk hgrid
  obtain ⟨c₁, gs, ls, hstart, h₁, hgs, hls⟩ :=
    coordinates_of_start hk' hwidth hcur ha.fits hb.fits rest vs
  obtain ⟨c₂, ms, xs, hpositions, h₂, hxs⟩ := positions_of_coordinates h₁ hk' hwidth hgs hls
  obtain ⟨c, as, bs, ys, hsums, h, hys⟩ := sums_of_positions h₂ hxs rfl hk ha.length hb.length
  obtain ⟨ws, hws, hstores⟩ := storeWrites_of_holds (.global 0) 11 int32 (.int .int32) hxs hys
  rw [laneCount_lanes] at hstores
  exact ⟨c, hstart.trans (hpositions.trans hsums), by rw [h.pc]; rfl, h.globals, ws, hstores,
    fun m r hm => h.store rfl (.cons rfl (.cons rfl (.cons rfl .nil))) hws hm⟩

theorem mem_entries {m count : Nat} {e : Nat × Int} (h : e ∈ entries a b m count) :
    m ≤ e.1 ∧ e.1 < m + count ∧ e.2 = sum a b e.1 := by
  obtain ⟨j, hj, rfl⟩ := List.mem_map.mp h
  have hj := List.mem_range.mp hj
  exact ⟨Nat.le_add_right m j, by dsimp only; omega, rfl⟩

/-- The first of some sums in a row are again sums in a row. -/
theorem take_entries {m count j : Nat} (hj : j ≤ count) :
    (entries a b m count).take j = entries a b m j := by
  rw [entries, ← List.map_take, List.take_range, Nat.min_eq_left hj, entries]

theorem getElem?_entries {m count j : Nat} (hj : j < count) :
    (entries a b m count)[j]? = some (m + j, sum a b (m + j)) := by
  rw [entries, List.getElem?_map, List.getElem?_range hj]
  rfl

theorem entries_lt (hk : k < grid) (hcur : cur.Spans (.int .int32) (grid * width)) :
    ∀ e ∈ entries a b (k * width) width, e.1 < cur.lengthAs (.int .int32) := fun _ he =>
  Nat.lt_of_lt_of_le (mem_entries he).2.1
    (Nat.le_trans (position_le hk (Nat.le_refl width)) hcur.length)

/-- More sums are put in place after those that are. -/
theorem Filled.append {m count : Nat} (h : Filled out a b m cur)
    (hlength : m + count ≤ out.lengthAs (.int .int32))
    (hfit : ∀ i, m ≤ i → i < m + count → IntType.int32.contains (sum a b i) = true) :
    Filled out a b (m + count) (cur.setInts .int32 (entries a b m count)) where
  shape := (cur.shape_setInts .int32 _).trans h.shape
  done i hi := by
    rcases Nat.lt_or_ge i m with hlt | hge
    · rw [Buffer.readAs?_setInts_of_not_mem, h.done i hlt]
      intro e he
      exact Nat.ne_of_gt (Nat.lt_of_lt_of_le hlt (mem_entries he).1)
    · refine Buffer.readAs?_setInts ?_ ?_ ?_ (hfit i hge hi)
      · refine List.mem_map.mpr ⟨i - m, List.mem_range.mpr (by omega), ?_⟩
        rw [Nat.add_sub_cancel' hge]
      · rintro e he rfl
        exact (mem_entries he).2.2
      · rw [Buffer.lengthAs_of_shape h.shape]
        exact Nat.lt_of_lt_of_le hi hlength
  rest i hi := by
    rw [Buffer.readAs?_setInts_of_not_mem, h.rest i (Nat.le_trans (Nat.le_add_right m count) hi)]
    intro e he
    exact Nat.ne_of_lt (Nat.lt_of_lt_of_le (mem_entries he).2.1 hi)

/-- A grid point all of whose sums fit fills its part of the buffer. -/
theorem ends_of_contains (hk : k < grid) (hgrid : grid < 2 ^ 31) (hwidth : width < 2 ^ 31)
    (hout : out.Spans (.int .int32) (grid * width)) (ha : a.Spans (.int .int32) (grid * width))
    (hb : b.Spans (.int .int32) (grid * width)) (hcur : Filled out a b (k * width) cur)
    (hfit : ∀ i, k * width ≤ i → i < k * width + width → IntType.int32.contains (sum a b i) = true)
    (rest : List Buffer) (vs : List Value) :
    ∃ cur' e, Filled out a b (k * width + width) cur' ∧
      e.memory.globals = cur' :: a :: b :: rest ∧
      Ends (.vectorAdd width) (.start ⟨k, 0, 0⟩ (lanes width) (cur :: a :: b :: rest) vs) 12 e
        .halted := by
  have hcur' := hout.of_shape hcur.shape
  obtain ⟨c, hstart, hc⟩ := storesLast_of_start hk hgrid hwidth hcur'.fits ha hb rest vs
  obtain ⟨d, hd, hends⟩ := hc.ends_of_contains (entries_lt hk hcur') (fun e he => by
    obtain ⟨hge, hlt, heq⟩ := mem_entries he
    exact heq ▸ hfit e.1 hge hlt)
  have hend := Nat.le_trans (position_le hk (Nat.le_refl width)) hout.length
  exact ⟨_, d, hcur.append hend hfit, hd, hstart.ends hends⟩

/-- A grid point stores its sums up to the first that does not fit. -/
theorem ends_of_not_contains {j : Nat} (hk : k < grid) (hj : j < width) (hgrid : grid < 2 ^ 31)
    (hwidth : width < 2 ^ 31) (hout : out.Spans (.int .int32) (grid * width))
    (ha : a.Spans (.int .int32) (grid * width)) (hb : b.Spans (.int .int32) (grid * width))
    (hcur : Filled out a b (k * width) cur)
    (hfit : ∀ i, i < k * width + j → IntType.int32.contains (sum a b i) = true)
    (hmiss : IntType.int32.contains (sum a b (k * width + j)) = false)
    (rest : List Buffer) (vs : List Value) :
    ∃ cur' e, Filled out a b (k * width + j) cur' ∧ e.memory.globals = cur' :: a :: b :: rest ∧
      Ends (.vectorAdd width) (.start ⟨k, 0, 0⟩ (lanes width) (cur :: a :: b :: rest) vs) 12 e
        (.failed (Memory.misfit .int32 (sum a b (k * width + j)))) := by
  have hcur' := hout.of_shape hcur.shape
  obtain ⟨c, hstart, hc⟩ := storesLast_of_start hk hgrid hwidth hcur'.fits ha hb rest vs
  have htake := @take_entries a b (k * width) width j (Nat.le_of_lt hj)
  obtain ⟨d, hd, hends⟩ := hc.ends_of_not_contains (entries_lt hk hcur') (getElem?_entries hj) hmiss
    (fun e he => by
      rw [htake] at he
      obtain ⟨-, hlt, heq⟩ := mem_entries he
      exact heq ▸ hfit e.1 hlt)
  rw [htake] at hd
  have hend := Nat.le_trans (position_le hk (Nat.le_of_lt hj)) hout.length
  exact ⟨_, d, hcur.append hend fun i _ hi => hfit i hi, hd, hstart.ends hends⟩

/-! ## The grid -/

/-- The first grid points fill the buffer as long as their sums fit. -/
theorem sweep_of_contains {l : Launch} {m : Nat} (hl : l.warp = line width) (hm : m ≤ grid)
    (hgrid : grid < 2 ^ 31) (hwidth : width < 2 ^ 31)
    (hout : out.Spans (.int .int32) (grid * width)) (ha : a.Spans (.int .int32) (grid * width))
    (hb : b.Spans (.int .int32) (grid * width))
    (hfit : ∀ i, i < m * width → IntType.int32.contains (sum a b i) = true) (rest : List Buffer) :
    ∃ cur, Filled out a b (m * width) cur ∧
      Sweep (.vectorAdd width) l ((List.range m).map fun k => ⟨k, 0, 0⟩) (out :: a :: b :: rest)
        (List.replicate m 12) (cur :: a :: b :: rest) := by
  induction m with
  | zero =>
    refine ⟨out, ⟨rfl, fun i hi => ?_, fun _ _ => rfl⟩, .nil⟩
    rw [Nat.zero_mul] at hi
    exact absurd hi (Nat.not_lt_zero i)
  | succ m ih =>
    have hle : m * width ≤ (m + 1) * width := Nat.mul_le_mul_right width (Nat.le_succ m)
    obtain ⟨cur, hcur, hsweep⟩ := ih (Nat.le_of_succ_le hm) fun i hi => hfit i (Nat.lt_of_lt_of_le hi hle)
    rw [Nat.succ_mul] at hfit ⊢
    obtain ⟨cur', e, hcur', he, hends⟩ := ends_of_contains hm hgrid hwidth hout ha hb hcur
      (fun i _ hi => hfit i hi) rest l.launchValues
    refine ⟨cur', hcur', ?_⟩
    rw [List.range_succ, List.map_append, List.replicate_succ', ← he]
    exact hsweep.concat (by rw [hl]; exact hends)

/-- The grid points before one of them, and that one. -/
theorem points_split (hk : k < grid) :
    ∃ after, Grid.points (line grid) =
      (List.range k).map (fun k => (⟨k, 0, 0⟩ : Point)) ++ ⟨k, 0, 0⟩ :: after := by
  refine ⟨((List.range grid).drop (k + 1)).map fun k => ⟨k, 0, 0⟩, ?_⟩
  have hlt : k < (List.range grid).length := by rwa [List.length_range]
  have hsplit : List.range grid = List.range k ++ k :: (List.range grid).drop (k + 1) := by
    conv_lhs => rw [← List.take_append_drop k (List.range grid), List.take_range,
      Nat.min_eq_left (Nat.le_of_lt hk), List.drop_eq_getElem_cons hlt, List.getElem_range]
  rw [points_line]
  conv_lhs => rw [hsplit]
  rw [List.map_append, List.map_cons]

theorem lt_of_mem_replicate {n m limit : Nat} (hlimit : 12 < limit) :
    n ∈ List.replicate m 12 → n < limit := fun hn => by
  rwa [List.eq_of_mem_replicate hn]

variable {e : Engine} {l : Launch} {limit : Nat}

/-- If all sums fit, the launch fills the buffer. -/
theorem launch_of_contains (hp : e.program = .vectorAdd width) (hglobal : l.global = line grid)
    (hwarp : l.warp = line width) (hgrid : grid < 2 ^ 31) (hwidth : width < 2 ^ 31)
    (hout : out.Spans (.int .int32) (grid * width)) (ha : a.Spans (.int .int32) (grid * width))
    (hb : b.Spans (.int .int32) (grid * width)) (hlimit : 12 < limit)
    (hfit : ∀ i, i < grid * width → IntType.int32.contains (sum a b i) = true) :
    ∃ cur, Filled out a b (grid * width) cur ∧ e.launch limit l (out :: a :: b :: rest) =
      ({ e with
          status := .completed
          iterations := e.iterations + grid
          instructions := e.instructions + grid * 12 }, cur :: a :: b :: rest, .halted) := by
  obtain ⟨cur, hfilled, hsweep⟩ :=
    sweep_of_contains hwarp (Nat.le_refl grid) hgrid hwidth hout ha hb hfit rest
  rw [← points_line, ← hglobal, ← hp] at hsweep
  refine ⟨cur, hfilled, ?_⟩
  rw [Engine.launch_of_sweep hsweep fun n => lt_of_mem_replicate hlimit]
  simp [Engine.charged]

/-- If a sum does not fit, the launch fills the buffer up to the first such and fails. -/
theorem launch_of_not_contains (hp : e.program = .vectorAdd width) (hglobal : l.global = line grid)
    (hwarp : l.warp = line width) (hgrid : grid < 2 ^ 31) (hwidth : width < 2 ^ 31)
    (hout : out.Spans (.int .int32) (grid * width)) (ha : a.Spans (.int .int32) (grid * width))
    (hb : b.Spans (.int .int32) (grid * width)) (hlimit : 12 < limit) (hi : i < grid * width)
    (hmiss : IntType.int32.contains (sum a b i) = false)
    (hfit : ∀ j, j < i → IntType.int32.contains (sum a b j) = true) :
    ∃ cur, Filled out a b i cur ∧ e.launch limit l (out :: a :: b :: rest) =
      ({ e with
          status := .error
          iterations := e.iterations + (i / width + 1)
          instructions := e.instructions + (i / width + 1) * 12 }, cur :: a :: b :: rest,
        .failed (Memory.misfit .int32 (sum a b i))) := by
  have hpos : 0 < width := by
    rcases Nat.eq_zero_or_pos width with rfl | hpos
    · exact absurd hi (Nat.not_lt_zero i)
    · exact hpos
  have hk : i / width < grid := Nat.div_lt_of_lt_mul (Nat.mul_comm grid width ▸ hi)
  have hplace : i / width * width + i % width = i := Nat.div_add_mod' i width
  -- the grid points before the one of `i`, then that one up to its lane
  obtain ⟨cur, hcur, hsweep⟩ := sweep_of_contains hwarp (Nat.le_of_lt hk) hgrid hwidth hout ha hb
    (fun j hj => hfit j (by omega)) rest
  obtain ⟨cur', d, hfilled, hd, hends⟩ := ends_of_not_contains hk (Nat.mod_lt i hpos) hgrid hwidth
    hout ha hb hcur (fun j hj => hfit j (by omega)) (hplace.symm ▸ hmiss) rest l.launchValues
  obtain ⟨after, hpoints⟩ := points_split hk
  rw [hplace] at hfilled hends
  rw [← hglobal] at hpoints
  rw [lanes, ← hwarp, ← hp] at hends
  rw [← hp] at hsweep
  refine ⟨cur', hfilled, ?_⟩
  rw [Engine.launch_of_fails hpoints hsweep hends, hd]
  · simp [Engine.charged, Nat.succ_mul]
  · intro m hm
    exact lt_of_mem_replicate (m := i / width + 1) hlimit (by rwa [List.replicate_succ])

end

end VectorAdd

/-- Let the program be launched over a line of grid points, each with a line of lanes. If all
sums fit, the launch succeeds with the sums in their places. If not, it fails to convert the
first that does not fit, with those before it in their places. Nothing else changes. -/
theorem vectorAdd_launch {e : Engine} {l : Launch} {grid width limit : Nat}
    {out a b : Buffer} {rest : List Buffer} (hp : e.program = .vectorAdd width)
    (hglobal : l.global = ⟨grid, 1, 1⟩) (hwarp : l.warp = ⟨width, 1, 1⟩) (hgrid : grid < 2 ^ 31)
    (hwidth : width < 2 ^ 31) (hout : out.Spans (.int .int32) (grid * width))
    (ha : a.Spans (.int .int32) (grid * width)) (hb : b.Spans (.int .int32) (grid * width))
    (hlimit : e.program.length < limit) :
    ((∀ i, i < grid * width →
        IntType.int32.contains (a.intAt .int32 i + b.intAt .int32 i) = true) →
      ∃ out', e.launch limit l (out :: a :: b :: rest) =
          ({ e with
              status := .completed
              iterations := e.iterations + grid
              instructions := e.instructions + grid * e.program.length },
            out' :: a :: b :: rest, .halted) ∧
        out'.shape = out.shape ∧
        (∀ i, i < grid * width → out'.readAs? (.int .int32) i =
          some (.int .int32 (a.intAt .int32 i + b.intAt .int32 i))) ∧
        ∀ i, grid * width ≤ i → out'.readAs? (.int .int32) i = out.readAs? (.int .int32) i) ∧
    ∀ i₀, i₀ < grid * width →
      IntType.int32.contains (a.intAt .int32 i₀ + b.intAt .int32 i₀) = false →
      (∀ i, i < i₀ → IntType.int32.contains (a.intAt .int32 i + b.intAt .int32 i) = true) →
      ∃ out', e.launch limit l (out :: a :: b :: rest) =
          ({ e with
              status := .error
              iterations := e.iterations + (i₀ / width + 1)
              instructions := e.instructions + (i₀ / width + 1) * e.program.length },
            out' :: a :: b :: rest,
            .failed (.conversion (.stored (.int .int64 (a.intAt .int32 i₀ + b.intAt .int32 i₀))
              (.int .int32) (.overflow (.whole (a.intAt .int32 i₀ + b.intAt .int32 i₀))
                (.int .int32))))) ∧
        out'.shape = out.shape ∧
        (∀ i, i < i₀ → out'.readAs? (.int .int32) i =
          some (.int .int32 (a.intAt .int32 i + b.intAt .int32 i))) ∧
        ∀ i, i₀ ≤ i → out'.readAs? (.int .int32) i = out.readAs? (.int .int32) i := by
  have hlength : e.program.length = 12 := by rw [hp]; rfl
  rw [hlength] at hlimit ⊢
  constructor
  · intro hfit
    obtain ⟨out', h, hlaunch⟩ :=
      VectorAdd.launch_of_contains hp hglobal hwarp hgrid hwidth hout ha hb hlimit hfit
    exact ⟨out', hlaunch, h.shape, h.done, h.rest⟩
  · intro i₀ hi₀ hmiss hfit
    obtain ⟨out', h, hlaunch⟩ := VectorAdd.launch_of_not_contains hp hglobal hwarp hgrid hwidth
      hout ha hb hlimit hi₀ hmiss hfit
    exact ⟨out', hlaunch, h.shape, h.done, h.rest⟩

/-- One, two and the greatest integer. -/
def VectorAdd.left : Buffer where
  format := .int .int32
  bytes := #[1, 0, 0, 0, 2, 0, 0, 0, 0xFF, 0xFF, 0xFF, 0x7F, 4, 0, 0, 0]

def VectorAdd.right : Buffer where
  format := .int .int32
  bytes := #[10, 0, 0, 0, 20, 0, 0, 0, 1, 0, 0, 0, 40, 0, 0, 0]

/-- The first lane of the second grid point has a sum that does not fit. -/
theorem vectorAdd_launch_third :
    ∃ out', (Engine.mk (.vectorAdd 2) .ready 0 0).launch 13 ⟨⟨2, 1, 1⟩, ⟨2, 1, 1⟩, [], false⟩
        [.zeros (.int .int32) 4, VectorAdd.left, VectorAdd.right] =
        (⟨.vectorAdd 2, .error, 2, 24⟩, [out', VectorAdd.left, VectorAdd.right],
          .failed (.conversion (.stored (.int .int64 2147483648) (.int .int32)
            (.overflow (.whole 2147483648) (.int .int32))))) ∧
      out'.readAs? (.int .int32) 1 = some (.int .int32 22) ∧
      out'.readAs? (.int .int32) 2 = some (.int .int32 0) := by
  have h := (@vectorAdd_launch (Engine.mk (.vectorAdd 2) .ready 0 0)
    ⟨⟨2, 1, 1⟩, ⟨2, 1, 1⟩, [], false⟩ 2 2 13 (.zeros (.int .int32) 4) VectorAdd.left VectorAdd.right
    [] rfl rfl rfl (by decide) (by decide) ⟨by decide, by decide⟩ ⟨by decide, by decide⟩
    ⟨by decide, by decide⟩ (by decide)).2 2 (by decide) (by decide +kernel) (by decide +kernel)
  obtain ⟨out', hlaunch, -, hdone, hrest⟩ := h
  exact ⟨out', hlaunch, (hdone 1 (by decide)).trans (by decide +kernel),
    (hrest 2 (by decide)).trans (by decide +kernel)⟩

end Lockstep
