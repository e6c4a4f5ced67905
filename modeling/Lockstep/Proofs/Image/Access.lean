import Lockstep.Proofs.Image.Address
import Lockstep.Proofs.Step.Scatter

/-!
# Loads and stores of images

An image over a buffer that has all its elements. A load gives zeros for the lanes whose texel
is outside the image and fails for none. A store fails if a texel is outside the image or a
value has no place in the format; if it is done and no two lanes have the same texel, a load
gives the channels back as they were converted, and the other texels are as before.
-/

namespace Lockstep

variable {n lanes : Nat}

/-! ## Lists of writes -/

namespace Memory

variable {m : Memory} {v : View} {b : Buffer} {ws ws' : List Write} {f : Fault}

/-- A list of writes through one view raises what a single one may, whatever bytes are in the
buffer of the view. -/
theorem perform_raises_of_writes {P : Fault → Prop} (hb : m.buffer? v.buffer = some b)
    (hws : ∀ w ∈ ws, w.view = v ∧ Raises w.address P ∧
      ∀ (k : Int) (m' : Memory) (b' : Buffer), w.address = .ok k →
        m'.buffer? v.buffer = some b' → b'.shape = b.shape → Raises (m'.write v k w.value) P) :
    Raises (m.perform ws).2 P := by
  suffices hall : ∀ (m : Memory) (b' : Buffer), m.buffer? v.buffer = some b' →
      b'.shape = b.shape → Raises (m.perform ws).2 P from hall m b hb rfl
  induction ws with
  | nil => exact fun _ _ _ _ => .ok _
  | cons w ws ih =>
    intro m b' hb' hshape
    obtain ⟨hview, haddress, hwrite⟩ := hws w List.mem_cons_self
    unfold perform
    cases hk : w.address with
    | error f => exact .error (haddress f hk)
    | ok k =>
      dsimp only
      rw [hview]
      cases hm : m.write v k w.value with
      | error f => exact .error (hwrite k m b' hk hb' hshape f hm)
      | ok m' =>
        obtain ⟨-, bytes, -, rfl⟩ := (write_eq_ok hb').mp hm
        refine ih (fun w' hw' => hws w' (List.mem_cons_of_mem _ hw')) _ _ (buffer?_put bytes hb') ?_
        exact (by simp [Buffer.shape, Buffer.size] : _ = b'.shape).trans hshape

theorem write_raises_of_hasElement {i : Int} (hb : m.buffer? v.buffer = some b)
    (hi : b.HasElement v.format i) (x : Value) : Raises (m.write v i x) fun f =>
      ¬ x.Storable v.format ∧ ∃ e, f = .conversion (.stored x v.format e) := by
  intro f hf
  rcases write_cases hb i x with ⟨hnone, -⟩ | ⟨-, hx, e, he⟩ | ⟨-, -, m', hm⟩
  · exact absurd hi hnone
  · exact ⟨hx, e, Except.error.inj (hf.symm.trans he)⟩
  · cases hf.symm.trans hm

/-- Writes one of which has no address are not all done. -/
theorem perform_of_address_error {w : Write} (hw : w ∈ ws) (hf : w.address = .error f) :
    ∃ f', (m.perform ws).2 = .error f' := by
  induction ws generalizing m with
  | nil => cases hw
  | cons w' ws ih =>
    unfold perform
    rcases List.mem_cons.mp hw with rfl | hw
    · exact ⟨f, by rw [hf]⟩
    · cases w'.address with
      | error f' => exact ⟨f', rfl⟩
      | ok k =>
        dsimp only
        cases m.write w'.view k w'.value with
        | error f' => exact ⟨f', rfl⟩
        | ok m' => exact ih hw

/-- What comes after a write that fails is not reached. -/
theorem perform_append_of_error (hf : (m.perform ws).2 = .error f) (ws' : List Write) :
    m.perform (ws ++ ws') = m.perform ws := by
  induction ws generalizing m with
  | nil => cases hf
  | cons w ws ih =>
    rw [List.cons_append]
    simp only [perform] at hf ⊢
    cases hk : w.address with
    | error f' => rfl
    | ok k =>
      rw [hk] at hf
      dsimp only at hf ⊢
      cases hm : m.write w.view k w.value with
      | error f' => rfl
      | ok m' =>
        rw [hm] at hf
        exact ih hf

end Memory

/-- The cells of the first sub-element come first. -/
theorem Cells.exists_first_positions (n lanes : Nat) : ∃ rest,
    Cells.positions (n + 1) lanes = (List.finRange lanes).map (Prod.mk 0) ++ rest := by
  rw [positions_eq_flatMap, List.finRange_succ, List.flatMap_cons]
  exact ⟨_, rfl⟩

/-! ## Images cell by cell -/

namespace Image

open Memory

variable {m m' : Memory} {v : View} {b : Buffer} {h w c : Nat} {p q : Int}
  {x y : Fin lanes → Value} {i j : Fin lanes → Int}

theorem loadImage_eq_traverse (m : Memory) (v : View) (h w : Nat) (x y : Fin lanes → Value) :
    m.loadImage (List.ofFn fun _ : Fin lanes => v) h w (List.ofFn x) (List.ofFn y) =
      Cells.traverse fun (c : Fin channels) l => m.loadTexel v h w (x l) (y l) c := by
  rw [Memory.loadImage, ← List.map_coe_finRange_eq_range, List.mapM_map, Cells.traverse]
  simp only [List.ofFn_eq_map, List.zip_map', List.mapM_map]
  rfl

/-- The write to a channel of the texel of a lane. -/
def cellWrite (v : View) (h w : Nat) (x y : Fin lanes → Value) (a : Cells n lanes)
    (p : Fin n × Fin lanes) : Write :=
  ⟨v, texelAddress h w (x p.2) (y p.2) p.1, a p.1 p.2⟩

theorem texelWrites_rows (v : View) (h w : Nat) (x y : Fin lanes → Value) (a : Cells n lanes) :
    texelWrites (List.ofFn fun _ : Fin lanes => v) h w (List.ofFn x) (List.ofFn y) a.rows =
      (Cells.positions n lanes).map (cellWrite v h w x y a) := by
  simp only [texelWrites, Cells.zipIdx_rows, List.flatMap_map, Cells.positions_eq_flatMap,
    List.map_flatMap, List.map_map, List.ofFn_eq_map, List.zip_map']
  rfl

theorem imageWrites_rows (v : View) (h w : Nat) (x y : Fin lanes → Value)
    (a : Cells channels lanes) :
    imageWrites (List.ofFn fun _ : Fin lanes => v) h w (List.ofFn x) (List.ofFn y) a.rows =
      .ok ((Cells.positions channels lanes).map (cellWrite v h w x y a)) := by
  rw [imageWrites, if_neg (by simp [Cells.rows]), texelWrites_rows]

/-! ## Buffers with all elements of an image -/

/-- The buffer has all elements of an image, and no more bytes than a word can count. -/
structure Covers (b : Buffer) (t : ScalarType) (h w : Nat) : Prop where
  size : b.size < wordLimit
  length : 4 * h * w ≤ b.lengthAs t

namespace Covers

variable {b' : Buffer} {t : ScalarType}

theorem of_shape (hcovers : Covers b t h w) (hshape : b'.shape = b.shape) : Covers b' t h w :=
  ⟨Buffer.size_of_shape hshape ▸ hcovers.size, Buffer.lengthAs_of_shape hshape t ▸ hcovers.length⟩

theorem hasElement (hcovers : Covers b t h w) (hin : Has h w p q) (hc : c < channels) :
    b.HasElement t (element w p q c) := by
  obtain ⟨hlow, hhigh⟩ := element_bounds hin hc
  have hlength : (4 * h * w : Int) ≤ b.lengthAs t := by exact_mod_cast hcovers.length
  exact ⟨hlow, by omega⟩

/-- No number of an element is too great. -/
theorem element_le (hcovers : Covers b t h w) (hin : Has h w p q) (hc : c < channels) :
    element w p q c ≤ Wide.max := by
  have hlength : b.lengthAs t ≤ b.size := Nat.div_le_self _ _
  have hsize : b.size < 2 ^ 64 := hcovers.size
  have hlt := (hcovers.hasElement hin hc).2
  unfold Wide.max
  omega

end Covers

section

variable (hb : m.buffer? v.buffer = some b) (hcovers : Covers b v.format h w)
  (hx : ∀ l, (x l).toInt? = some (i l)) (hy : ∀ l, (y l).toInt? = some (j l))

/-! ## Loads -/

include hcovers hx hy

theorem loadTexel_of_covers {l : Fin lanes} (hin : Has h w (i l) (j l)) (m : Memory)
    (c : Fin channels) :
    m.loadTexel v h w (x l) (y l) c = m.read v (element w (i l) (j l) c) :=
  loadTexel_of_le (hx l) (hy l) m v hin (hcovers.element_le hin c.isLt)

include hb in
theorem exists_loadTexel (c : Fin channels) (l : Fin lanes) :
    ∃ r, m.loadTexel v h w (x l) (y l) c = .ok r ∧
      (Has h w (i l) (j l) → m.read v (element w (i l) (j l) c) = .ok r) ∧
      (¬ Has h w (i l) (j l) → r = .zero v.format) := by
  by_cases hin : Has h w (i l) (j l)
  · obtain ⟨r, -, hr⟩ := read_of_hasElement hb (hcovers.hasElement hin c.isLt)
    refine ⟨r, ?_, fun _ => hr, fun hout => absurd hin hout⟩
    rw [loadTexel_of_covers hcovers hx hy hin, hr]
  · exact ⟨_, loadTexel_of_not_has (hx l) (hy l) m v hin c, fun h => absurd h hin, fun _ => rfl⟩

include hb in
/-- A load gives the elements of the texels that the image has and zeros for the others. -/
theorem exists_loadImage : ∃ r : Cells channels lanes,
    m.loadImage (List.ofFn fun _ : Fin lanes => v) h w (List.ofFn x) (List.ofFn y) = .ok r.rows ∧
      ∀ (c : Fin channels) l,
        (Has h w (i l) (j l) → m.read v (element w (i l) (j l) c) = .ok (r c l)) ∧
        (¬ Has h w (i l) (j l) → r c l = .zero v.format) := by
  choose r hr hcells using exists_loadTexel hb hcovers hx hy
  refine ⟨r, ?_, hcells⟩
  rw [loadImage_eq_traverse]
  exact Cells.traverse_eq_ok.mpr ⟨r, rfl, hr⟩

/-! ## Stores -/

variable {a : Cells channels lanes}

/-- Where the channels of the texels go. -/
def placed (w : Nat) (i j : Fin lanes → Int) (a : Cells n lanes) : List (Int × Value) :=
  (Cells.positions n lanes).map fun p => (element w (i p.2) (j p.2) p.1, a p.1 p.2)

theorem address_cellWrite (cell : Fin n × Fin lanes) (hin : Has h w (i cell.2) (j cell.2))
    (hc : cell.1 < channels) (a : Cells n lanes) :
    (cellWrite v h w x y a cell).address = .ok (element w (i cell.2) (j cell.2) cell.1) :=
  texelAddress_of_le (hx cell.2) (hy cell.2) hin (hcovers.element_le hin hc)

theorem cellWrites_eq_stores (hin : ∀ l, Has h w (i l) (j l)) (a : Cells channels lanes) :
    (Cells.positions channels lanes).map (cellWrite v h w x y a) = v.stores (placed w i j a) := by
  rw [View.stores, placed, List.map_map]
  refine List.map_congr_left fun cell _ => ?_
  have haddress := address_cellWrite hcovers hx hy cell (v := v) (hin cell.2) cell.1.isLt a
  exact congrArg (Write.mk v · (a cell.1 cell.2)) haddress

/-- A write to a texel of the image finds its element in any buffer of this shape. -/
theorem write_cell_raises (cell : Fin n × Fin lanes) (hin : Has h w (i cell.2) (j cell.2))
    (hc : cell.1 < channels) (a : Cells n lanes) {k : Int} {m' : Memory} {b' : Buffer}
    (hk : (cellWrite v h w x y a cell).address = .ok k) (hb' : m'.buffer? v.buffer = some b')
    (hshape : b'.shape = b.shape) : Raises (m'.write v k (a cell.1 cell.2)) fun f =>
      ¬ (a cell.1 cell.2).Storable v.format ∧
        ∃ e, f = .conversion (.stored (a cell.1 cell.2) v.format e) := by
  obtain rfl := Except.ok.inj ((address_cellWrite hcovers hx hy cell hin hc a).symm.trans hk)
  exact write_raises_of_hasElement hb' ((hcovers.of_shape hshape).hasElement hin hc) _

include hb in
/-- With all texels in the image only a value that has no place in the format is in the way. -/
theorem perform_cellWrites_raises (hin : ∀ l, Has h w (i l) (j l)) (a : Cells channels lanes) :
    Raises (m.perform ((Cells.positions channels lanes).map (cellWrite v h w x y a))).2 fun f =>
      ∃ c l e, ¬ (a c l).Storable v.format ∧ f = .conversion (.stored (a c l) v.format e) := by
  refine perform_raises_of_writes hb (List.forall_mem_map.mpr ?_)
  rintro ⟨c, l⟩ -
  refine ⟨rfl, address_cellWrite hcovers hx hy (c, l) (hin l) c.isLt a ▸ .ok _, ?_⟩
  intro k m' b' hk hb' hshape f hf
  obtain ⟨hnone, e, he⟩ :=
    write_cell_raises hcovers hx hy (c, l) (hin l) c.isLt a hk hb' hshape f hf
  exact ⟨c, l, e, hnone, he⟩

omit hcovers in
theorem perform_cellWrites_of_not_has {l : Fin lanes} (hout : ¬ Has h w (i l) (j l)) (m : Memory)
    (a : Cells (n + 1) lanes) :
    ∃ f, (m.perform ((Cells.positions (n + 1) lanes).map (cellWrite v h w x y a))).2 =
      .error f := by
  apply perform_of_address_error (List.mem_map_of_mem (Cells.mem_positions (0, l)))
  exact texelAddress_of_not_has (hx l) (hy l) hout 0

include hb in
theorem perform_firstWrites_raises {a : Cells (n + 1) lanes}
    (ha : ∀ l, (a 0 l).Storable v.format) :
    Raises (m.perform ((List.finRange lanes).map fun l => cellWrite v h w x y a (0, l))).2 fun f =>
      ∃ l, ¬ Has h w (i l) (j l) ∧
        f = .invalidOperands (.memory .store) (.outsideImage (i l) (j l) h w) := by
  refine perform_raises_of_writes hb (List.forall_mem_map.mpr ?_)
  intro l _
  by_cases hin : Has h w (i l) (j l)
  · have hc : ((0 : Fin (n + 1)) : Nat) < channels := (by decide : 0 < channels)
    refine ⟨rfl, address_cellWrite hcovers hx hy (0, l) hin hc a ▸ .ok _, ?_⟩
    intro k m' b' hk hb' hshape f hf
    have hraises := write_cell_raises hcovers hx hy (0, l) hin hc a hk hb' hshape
    exact absurd (ha l) (hraises f hf).1
  · have haddress : (cellWrite v h w x y a (0, l)).address = .error _ :=
      texelAddress_of_not_has (hx l) (hy l) hin 0
    refine ⟨rfl, haddress ▸ .error ⟨l, hin, rfl⟩, ?_⟩
    intro k m' b' hk
    cases haddress.symm.trans hk

include hb in
/-- If the first channel has a place in the format on every lane, a texel outside the image
comes to light in it. -/
theorem perform_cellWrites_of_first {l : Fin lanes} (hout : ¬ Has h w (i l) (j l))
    {a : Cells (n + 1) lanes} (ha : ∀ l, (a 0 l).Storable v.format) :
    ∃ l, ¬ Has h w (i l) (j l) ∧
      (m.perform ((Cells.positions (n + 1) lanes).map (cellWrite v h w x y a))).2 =
        .error (.invalidOperands (.memory .store) (.outsideImage (i l) (j l) h w)) := by
  obtain ⟨rest, hrest⟩ := Cells.exists_first_positions n lanes
  obtain ⟨f, hf⟩ : ∃ f, (m.perform ((List.finRange lanes).map fun l =>
      cellWrite v h w x y a (0, l))).2 = .error f := by
    apply perform_of_address_error (List.mem_map_of_mem (List.mem_finRange l))
    exact texelAddress_of_not_has (hx l) (hy l) hout 0
  obtain ⟨l', hout', rfl⟩ := perform_firstWrites_raises hb hcovers hx hy ha f hf
  refine ⟨l', hout', ?_⟩
  rw [hrest, List.map_append, List.map_map, ← hf]
  exact congrArg Prod.snd (perform_append_of_error hf _)

omit hcovers hx hy

/-- No two channels of texels of the image go to the same element. -/
theorem nodup_placed (hin : ∀ l, Has h w (i l) (j l))
    (hinj : Function.Injective fun l => (i l, j l)) (a : Cells channels lanes) :
    ((placed w i j a).map Prod.fst).Nodup := by
  rw [placed, List.map_map]
  refine List.Nodup.map ?_ ((List.nodup_finRange channels).product (List.nodup_finRange lanes))
  rintro ⟨c, l⟩ ⟨c', l'⟩ heq
  obtain ⟨hcolumn, hrow, hchannel⟩ := element_inj (hin l) (hin l') c.isLt c'.isLt heq
  exact Prod.ext (Fin.ext hchannel) (hinj (Prod.ext hcolumn hrow))

include hcovers hx hy in
/-- What was stored to different texels is loaded again. -/
theorem loadImage_of_perform (hf : v.format.isFloat = false) (hin : ∀ l, Has h w (i l) (j l))
    (hinj : Function.Injective fun l => (i l, j l)) {a : Cells channels lanes}
    (ha : ∀ c l, (a c l).WellFormed)
    (hm : m.perform (v.stores (placed w i j a)) = (m', .ok ())) :
    ∃ r : Cells channels lanes,
      m'.loadImage (List.ofFn fun _ : Fin lanes => v) h w (List.ofFn x) (List.ofFn y) =
          .ok r.rows ∧
        ∀ c l, (a c l).convert v.format = .ok (r c l) := by
  have hcell (c : Fin channels) (l : Fin lanes) : ∃ r, (a c l).convert v.format = .ok r ∧
      m'.loadTexel v h w (x l) (y l) c = .ok r := by
    have hplaced : (element w (i l) (j l) c, a c l) ∈ placed w i j a :=
      List.mem_map_of_mem (Cells.mem_positions (c, l))
    rw [loadTexel_of_covers hcovers hx hy (hin l)]
    exact read_of_mem_stores (ha c l) hf (nodup_placed hin hinj a) hm hplaced
  choose r hconvert hload using hcell
  refine ⟨r, ?_, hconvert⟩
  rw [loadImage_eq_traverse]
  exact Cells.traverse_eq_ok.mpr ⟨r, rfl, hload⟩

/-- A texel that nothing is stored to stays. -/
theorem read_other_texel (hin : ∀ l, Has h w (i l) (j l)) {a : Cells channels lanes}
    (hm : m.perform (v.stores (placed w i j a)) = (m', .ok ())) (hpq : Has h w p q)
    (hother : ∀ l, (i l, j l) ≠ (p, q)) (hc : c < channels) :
    m'.read v (element w p q c) = m.read v (element w p q c) := by
  apply read_of_perform_stores hm
  intro e he heq
  obtain ⟨⟨d, l⟩, -, rfl⟩ := List.mem_map.mp he
  obtain ⟨hcolumn, hrow, -⟩ := element_inj (hin l) hpq d.isLt hc heq
  exact hother l (Prod.ext hcolumn hrow)

end

/-! ## The law -/

instance : NeZero channels := ⟨by decide⟩

/-- A load of an image fails for no coordinates: it gives zeros for a texel that the image
does not have, and for another the four elements that belong to it and to no other. A store
fails if the image does not have all texels, because of one of these unless a value of the
first channel has no place in the format, and with all texels in the image it fails only
because of a value. If it is done and no two lanes have the same texel, a load from the same
coordinates gives the channels back as they were converted, and the other texels stay. -/
theorem image_access {m : Memory} {v : View} {b : Buffer} {h w : Nat}
    {x y : Fin lanes → Value} {i j : Fin lanes → Int} (hb : m.buffer? v.buffer = some b)
    (hf : v.format.isFloat = false) (hcovers : Covers b v.format h w)
    (hx : ∀ l, (x l).toInt? = some (i l)) (hy : ∀ l, (y l).toInt? = some (j l)) :
    (∃ r : Cells channels lanes,
      m.loadImage (List.ofFn fun _ : Fin lanes => v) h w (List.ofFn x) (List.ofFn y) =
          .ok r.rows ∧
      ∀ (c : Fin channels) l,
        (Has h w (i l) (j l) → m.read v (element w (i l) (j l) c) = .ok (r c l)) ∧
        (¬ Has h w (i l) (j l) → r c l = .zero v.format)) ∧
    (∀ p q c p' q' c', Has h w p q → Has h w p' q' → c < channels → c' < channels →
      element w p q c = element w p' q' c' → p = p' ∧ q = q' ∧ c = c') ∧
    ∀ a : Cells channels lanes, (∀ c l, (a c l).WellFormed) → ∃ ws,
      imageWrites (List.ofFn fun _ : Fin lanes => v) h w (List.ofFn x) (List.ofFn y) a.rows =
          .ok ws ∧
      ((∃ l, ¬ Has h w (i l) (j l)) → ∃ f, (m.perform ws).2 = .error f) ∧
      ((∃ l, ¬ Has h w (i l) (j l)) → (∀ l, (a 0 l).Storable v.format) →
        ∃ l, ¬ Has h w (i l) (j l) ∧ (m.perform ws).2 =
          .error (.invalidOperands (.memory .store) (.outsideImage (i l) (j l) h w))) ∧
      ((∀ l, Has h w (i l) (j l)) → ∀ f, (m.perform ws).2 = .error f →
        ∃ c l e, ¬ (a c l).Storable v.format ∧ f = .conversion (.stored (a c l) v.format e)) ∧
      ∀ m', m.perform ws = (m', .ok ()) → (Function.Injective fun l => (i l, j l)) →
        (∃ r : Cells channels lanes,
          m'.loadImage (List.ofFn fun _ : Fin lanes => v) h w (List.ofFn x) (List.ofFn y) =
              .ok r.rows ∧
            ∀ c l, (a c l).convert v.format = .ok (r c l)) ∧
        ∀ p q c, Has h w p q → (∀ l, (i l, j l) ≠ (p, q)) → c < channels →
          m'.read v (element w p q c) = m.read v (element w p q c) := by
  refine ⟨exists_loadImage hb hcovers hx hy, ?_, ?_⟩
  · intro p q c p' q' c' hin hin' hc hc' heq
    exact element_inj hin hin' hc hc' heq
  · intro a ha
    refine ⟨_, imageWrites_rows v h w x y a, ?_, ?_, ?_, ?_⟩
    · rintro ⟨l, hout⟩
      exact perform_cellWrites_of_not_has hx hy hout m a
    · rintro ⟨l, hout⟩ hfirst
      exact perform_cellWrites_of_first hb hcovers hx hy hout hfirst
    · intro hin
      exact perform_cellWrites_raises hb hcovers hx hy hin a
    · intro m' hm hinj
      -- a store that is done has all its texels in the image
      have hin (l : Fin lanes) : Has h w (i l) (j l) := by
        by_contra hout
        obtain ⟨f, hfault⟩ := perform_cellWrites_of_not_has hx hy hout m a
        cases hfault.symm.trans (congrArg Prod.snd hm)
      rw [cellWrites_eq_stores hcovers hx hy hin] at hm
      refine ⟨loadImage_of_perform hcovers hx hy hf hin hinj ha hm, ?_⟩
      intro p q c hpq hother hc
      exact read_other_texel hin hm hpq hother hc

/-- An image of one row and two columns, on two lanes. The texels of both columns are stored
and loaded again; with the second lane one column further on, a load gives it zeros, and a
store fails. -/
theorem image_access_two_lanes :
    let m : Memory := .ofBuffers [⟨.int .uint8, #[1, 2, 3, 4, 5, 6, 7, 8]⟩]
    let v : View := ⟨.global 0, .int .uint8⟩
    let byte (k : Int) : Value := .int .uint8 k
    let views : List View := List.ofFn fun _ : Fin 2 => v
    let xs (k : Int) : Lanes := List.ofFn ![byte 0, byte k]
    let ys : Lanes := List.ofFn ![byte 0, byte 0]
    let a : Cells channels 2 := fun c l => byte (10 * l + c)
    (∃ ws m', imageWrites views 1 2 (xs 1) ys a.rows = .ok ws ∧ m.perform ws = (m', .ok ()) ∧
      m'.loadImage views 1 2 (xs 1) ys = .ok a.rows) ∧
    (∃ r : Cells channels 2, m.loadImage views 1 2 (xs 2) ys = .ok r.rows ∧
      m.read v 3 = .ok (r 3 0) ∧ r 3 1 = byte 0) ∧
    ∃ ws, imageWrites views 1 2 (xs 2) ys a.rows = .ok ws ∧
      (m.perform ws).2 = .error (.invalidOperands (.memory .store) (.outsideImage 2 0 1 2)) := by
  intro m v byte views xs ys a
  have hb : m.buffer? v.buffer = some ⟨.int .uint8, #[1, 2, 3, 4, 5, 6, 7, 8]⟩ := rfl
  have hcovers : Covers ⟨.int .uint8, #[1, 2, 3, 4, 5, 6, 7, 8]⟩ v.format 1 2 :=
    ⟨by decide, by decide⟩
  have hx (k : Int) : ∀ l : Fin 2, (![byte 0, byte k] l).toInt? = some (![0, k] l) := by
    intro l
    match l with
    | 0 => rfl
    | 1 => rfl
  have ha : ∀ (c : Fin channels) (l : Fin 2), (a c l).WellFormed := by decide
  have hconvert : ∀ (c : Fin channels) (l : Fin 2), (a c l).convert v.format = .ok (a c l) := by
    decide
  have hstorable (c : Fin channels) (l : Fin 2) : (a c l).Storable v.format :=
    ⟨⟨_, hconvert c l⟩, fun hfloat => Bool.noConfusion hfloat.2⟩
  obtain ⟨-, -, hinside⟩ := image_access hb rfl hcovers (hx 1) (hx 0)
  obtain ⟨⟨r, hload, hr⟩, -, houtside⟩ := image_access hb rfl hcovers (hx 2) (hx 0)
  refine ⟨?_, ⟨r, hload, (hr 3 0).1 (by decide), (hr 3 1).2 (by decide)⟩, ?_⟩
  · obtain ⟨ws, hws, -, -, hraises, hback⟩ := hinside a ha
    cases hm : m.perform ws with
    | mk m' result =>
      cases result with
      | error f =>
        obtain ⟨c, l, e, hnone, -⟩ := hraises (by decide) f (by rw [hm])
        exact absurd (hstorable c l) hnone
      | ok u =>
        obtain ⟨⟨r', hload', hr'⟩, -⟩ := hback m' hm (by decide)
        obtain rfl : r' = a := by
          funext c l
          exact Except.ok.inj ((hr' c l).symm.trans (hconvert c l))
        exact ⟨ws, m', hws, hm, hload'⟩
  · obtain ⟨ws, hws, -, hfirst, -⟩ := houtside a ha
    obtain ⟨l, hout, hfault⟩ := hfirst ⟨1, by decide⟩ (hstorable 0)
    refine ⟨ws, hws, ?_⟩
    match l with
    | 0 => exact absurd (show Has 1 2 0 0 by decide) hout
    | 1 => exact hfault

end Image

end Lockstep
