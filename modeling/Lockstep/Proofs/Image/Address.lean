import Lockstep.Proofs.Memory.Element

/-!
# Addresses in images

The elements of an image are counted along its rows, four to a texel. The number of an element
is computed step by step in wide integers. Either all steps and the number itself are wide
integers, and the access goes to that element, or a step overflows and the access is a crash.
The images whose elements can all be counted are those of at most `2 ^ 127` elements.
-/

namespace Lockstep

/-! ## Wide integers -/

namespace Wide

variable {i : Int} {cause : Overflow}

theorem contains_iff : contains i = true ↔ min ≤ i ∧ i ≤ max := by
  simp [contains]

theorem checked_of_le (hzero : 0 ≤ i) (hle : i ≤ max) : checked cause i = .ok i := by
  have hmin : min ≤ 0 := by decide
  exact if_pos (contains_iff.mpr ⟨hmin.trans hzero, hle⟩)

theorem checked_of_lt (hlt : max < i) : checked cause i = .error cause :=
  if_neg fun h => absurd (contains_iff.mp h).2 (Int.not_le.mpr hlt)

end Wide

namespace Image

/-- The texel in column `x` and row `y` is one of the image. -/
def Has (h w : Nat) (x y : Int) : Prop := 0 ≤ x ∧ x < w ∧ 0 ≤ y ∧ y < h

instance (h w : Nat) (x y : Int) : Decidable (Has h w x y) :=
  inferInstanceAs (Decidable (0 ≤ x ∧ x < w ∧ 0 ≤ y ∧ y < h))

/-- The number of the element that holds a channel of a texel. -/
def element (w : Nat) (x y : Int) (c : Nat) : Int := 4 * (y * w + x) + c

/-- The integers on the way to the number of an element, in the order in which they come up. -/
def partials (w : Nat) (x y : Int) (c : Nat) : List Int :=
  [x * 4, y * w, y * w * 4, x * 4 + y * w * 4, x * 4 + y * w * 4 + c]

/-- What goes wrong on the way to an element whose number is too great. -/
def overflow (w : Nat) (x y : Int) : Wide.Overflow :=
  if x * 4 ≤ Wide.max ∧ y * w * 4 ≤ Wide.max then .add else .multiply

variable {h w c c' : Nat} {x y x' y' : Int}

/-! ## Elements -/

theorem element_bounds (hin : Has h w x y) (hc : c < 4) :
    0 ≤ element w x y c ∧ element w x y c < 4 * h * w := by
  obtain ⟨hx, hxw, hy, hyh⟩ := hin
  have hrow : 0 ≤ y * w := Int.mul_nonneg hy (Int.natCast_nonneg w)
  have hrows : (y + 1) * w ≤ h * w := Int.mul_le_mul_of_nonneg_right hyh (Int.natCast_nonneg w)
  have hnext : (y + 1) * w = y * w + w := by ring
  have hall : 4 * (h : Int) * w = 4 * (h * w) := by ring
  unfold element
  omega

/-- Different channels and different texels have different elements. -/
theorem element_inj (hin : Has h w x y) (hin' : Has h w x' y') (hc : c < 4) (hc' : c' < 4)
    (heq : element w x y c = element w x' y' c') : x = x' ∧ y = y' ∧ c = c' := by
  obtain ⟨hx, hxw, -, -⟩ := hin
  obtain ⟨hx', hxw', -, -⟩ := hin'
  unfold element at heq
  have hchannel : c = c' := by omega
  have htexel : x + y * w = x' + y' * w := by omega
  have hcolumn : x = x' := by
    have := congrArg (· % (w : Int)) htexel
    simp only [Int.add_mul_emod_self_right] at this
    rwa [Int.emod_eq_of_lt hx hxw, Int.emod_eq_of_lt hx' hxw'] at this
  subst hcolumn
  have hrow : y * w = y' * w := by omega
  exact ⟨rfl, Int.eq_of_mul_eq_mul_right (by omega) hrow, hchannel⟩

/-! ## Addresses -/

theorem element_eq_sum (w : Nat) (x y : Int) (c : Nat) :
    element w x y c = x * 4 + y * w * 4 + c := by
  unfold element
  ring

/-- Nothing on the way to an element is greater than its number. -/
theorem partials_contains_iff (hin : Has h w x y) :
    (∀ n ∈ partials w x y c, Wide.contains n = true) ↔ element w x y c ≤ Wide.max := by
  obtain ⟨hx, -, hy, -⟩ := hin
  have hrow : 0 ≤ y * w := Int.mul_nonneg hy (Int.natCast_nonneg w)
  have hmin : Wide.min ≤ 0 := by decide
  simp only [partials, Wide.contains_iff, List.forall_mem_cons, List.not_mem_nil,
    false_implies, implies_true, and_true, element]
  omega

theorem texelNumber_of_le (hin : Has h w x y) (hle : element w x y c ≤ Wide.max) :
    Memory.texelNumber w x y c = .ok (element w x y c) := by
  obtain ⟨hx, -, hy, -⟩ := hin
  have hline : 0 ≤ y * w := Int.mul_nonneg hy (Int.natCast_nonneg w)
  have hchannels : (Memory.channels : Int) = 4 := rfl
  rw [element_eq_sum] at hle ⊢
  simp (disch := omega) only [Memory.texelNumber, Wide.add, Wide.multiply, hchannels,
    Wide.checked_of_le, bind, Except.bind]

/-- The first step whose result is too great gives its own overflow. -/
theorem texelNumber_of_lt (hin : Has h w x y) (hlt : Wide.max < element w x y c) :
    Memory.texelNumber w x y c = .error (overflow w x y) := by
  obtain ⟨hx, -, hy, -⟩ := hin
  have hline : 0 ≤ y * w := Int.mul_nonneg hy (Int.natCast_nonneg w)
  have hchannels : (Memory.channels : Int) = 4 := rfl
  rw [element_eq_sum] at hlt
  simp only [Memory.texelNumber, Wide.add, Wide.multiply, hchannels, bind, Except.bind]
  by_cases hproducts : x * 4 ≤ Wide.max ∧ y * w * 4 ≤ Wide.max
  · rw [overflow, if_pos hproducts]
    -- one of the two sums is too great
    by_cases hstart : x * 4 + y * w * 4 ≤ Wide.max
    all_goals simp (disch := omega) only [Wide.checked_of_le, Wide.checked_of_lt]
  · rw [overflow, if_neg hproducts]
    -- one of the three products is too great
    by_cases hcolumn : x * 4 ≤ Wide.max
    · by_cases hrow : y * w ≤ Wide.max
      all_goals simp (disch := omega) only [Wide.checked_of_le, Wide.checked_of_lt]
    · simp (disch := omega) only [Wide.checked_of_lt]

/-- The greatest number belongs to the last channel of the last texel. -/
theorem elements_le_iff (h w : Nat) :
    (∀ x y c, Has h w x y → c < 4 → element w x y c ≤ Wide.max) ↔
      (4 * h * w : Int) ≤ Wide.max + 1 := by
  constructor
  · intro hall
    by_cases hempty : h = 0 ∨ w = 0
    · have hzero : (4 * h * w : Int) = 0 := by
        rcases hempty with rfl | rfl <;> simp
      rw [hzero]
      decide
    · have hlast := hall (w - 1) (h - 1) 3 ⟨by omega, by omega, by omega, by omega⟩ (by decide)
      have hnumber : element w (w - 1) (h - 1) 3 = 4 * h * w - 1 := by
        unfold element
        push_cast
        ring
      omega
  · intro hsize x y c hin hc
    have hbounds := element_bounds hin hc
    omega

end Image

/-! ## Accesses -/

namespace Memory

open Image

variable {h w c : Nat} {i j : Int} {m : Memory} {v : View} {b : Buffer}

theorem texel?_of_le (hin : Has h w i j) (hle : element w i j c ≤ Wide.max) :
    texel? h w i j c = .ok (some (element w i j c)) := by
  refine (if_pos hin).trans ?_
  rw [texelNumber_of_le hin hle]
  rfl

theorem texel?_of_lt (hin : Has h w i j) (hlt : Wide.max < element w i j c) :
    texel? h w i j c = .error (.addressOverflow (overflow w i j)) := by
  refine (if_pos hin).trans ?_
  rw [texelNumber_of_lt hin hlt]
  rfl

theorem texel?_of_not_has (hin : ¬ Has h w i j) (c : Nat) : texel? h w i j c = .ok none :=
  if_neg hin

section

variable {x y : Value} (hx : x.toInt? = some i) (hy : y.toInt? = some j)

include hx hy

theorem loadTexel_of_le (m : Memory) (v : View) (hin : Has h w i j)
    (hle : element w i j c ≤ Wide.max) :
    m.loadTexel v h w x y c = m.read v (element w i j c) := by
  simp [loadTexel, offset, hx, hy, texel?_of_le hin hle, bind, Except.bind]

theorem loadTexel_of_lt (m : Memory) (v : View) (hin : Has h w i j)
    (hlt : Wide.max < element w i j c) :
    m.loadTexel v h w x y c = .error (.addressOverflow (overflow w i j)) := by
  simp [loadTexel, offset, hx, hy, texel?_of_lt hin hlt, bind, Except.bind]

/-- A texel outside the image reads as zero. -/
theorem loadTexel_of_not_has (m : Memory) (v : View) (hin : ¬ Has h w i j) (c : Nat) :
    m.loadTexel v h w x y c = .ok (.zero v.format) := by
  simp [loadTexel, offset, hx, hy, texel?_of_not_has hin, bind, Except.bind, pure, Except.pure]

theorem texelAddress_of_le (hin : Has h w i j) (hle : element w i j c ≤ Wide.max) :
    texelAddress h w x y c = .ok (element w i j c) := by
  simp [texelAddress, offset, hx, hy, texel?_of_le hin hle, bind, Except.bind, pure, Except.pure]

theorem texelAddress_of_lt (hin : Has h w i j) (hlt : Wide.max < element w i j c) :
    texelAddress h w x y c = .error (.addressOverflow (overflow w i j)) := by
  simp [texelAddress, offset, hx, hy, texel?_of_lt hin hlt, bind, Except.bind]

/-- A texel outside the image has no address. -/
theorem texelAddress_of_not_has (hin : ¬ Has h w i j) (c : Nat) :
    texelAddress h w x y c = .error (.invalidOperands (.memory .store) (.outsideImage i j h w)) := by
  simp [texelAddress, offset, hx, hy, texel?_of_not_has hin, bind, Except.bind, throw, throwThe,
    MonadExceptOf.throw]

/-- A write to a texel of the image is one to its element. -/
theorem perform_texel_of_not_hasElement (hb : m.buffer? v.buffer = some b) (hin : Has h w i j)
    (hle : element w i j c ≤ Wide.max) (hout : ¬ b.HasElement v.format (element w i j c))
    (a : Value) (ws : List Write) :
    m.perform (⟨v, texelAddress h w x y c, a⟩ :: ws) =
      (m, .error (.outOfBounds .store (element w i j c) (b.lengthAs v.format))) := by
  simp only [perform, texelAddress_of_le hx hy hin hle, write_of_not_hasElement hb hout]

theorem perform_texel_of_lt (m : Memory) (v : View) (hin : Has h w i j)
    (hlt : Wide.max < element w i j c) (a : Value) (ws : List Write) :
    m.perform (⟨v, texelAddress h w x y c, a⟩ :: ws) =
      (m, .error (.addressOverflow (overflow w i j))) := by
  simp only [perform, texelAddress_of_lt hx hy hin hlt]

end

/-- A texel of the image is read and written at its own element or not at all. If the number
of the element is a wide integer, so is all that is computed on the way, and an element beyond
the end of the buffer is out of bounds. If it is greater, the access is a crash that leaves
the memory as it is. No number is too great in an image of at most `2 ^ 127` elements, and some
number is in any larger one. -/
theorem texel_located {x y : Value} (hb : m.buffer? v.buffer = some b) (hx : x.toInt? = some i)
    (hy : y.toInt? = some j) (hin : Has h w i j) (c : Nat) :
    ((∀ n ∈ partials w i j c, Wide.contains n = true) ↔ element w i j c ≤ Wide.max) ∧
    (element w i j c ≤ Wide.max →
      m.loadTexel v h w x y c = m.read v (element w i j c) ∧
      texelAddress h w x y c = .ok (element w i j c) ∧
      (¬ b.HasElement v.format (element w i j c) →
        m.loadTexel v h w x y c =
            .error (.outOfBounds .load (element w i j c) (b.lengthAs v.format)) ∧
          ∀ a ws, m.perform (⟨v, texelAddress h w x y c, a⟩ :: ws) =
            (m, .error (.outOfBounds .store (element w i j c) (b.lengthAs v.format))))) ∧
    (Wide.max < element w i j c →
      m.loadTexel v h w x y c = .error (.addressOverflow (overflow w i j)) ∧
      ∀ a ws, m.perform (⟨v, texelAddress h w x y c, a⟩ :: ws) =
        (m, .error (.addressOverflow (overflow w i j)))) ∧
    ((∃ a, m.loadTexel v h w x y c = .ok a) ↔
      element w i j c ≤ Wide.max ∧ b.HasElement v.format (element w i j c)) ∧
    ((∀ p q d, Has h w p q → d < channels → element w p q d ≤ Wide.max) ↔
      (4 * h * w : Int) ≤ Wide.max + 1) := by
  refine ⟨partials_contains_iff hin, ?_, ?_, ?_, elements_le_iff h w⟩
  · intro hle
    have hload := loadTexel_of_le hx hy m v hin hle
    refine ⟨hload, texelAddress_of_le hx hy hin hle, fun hout => ⟨?_, ?_⟩⟩
    · exact hload.trans (read_of_not_hasElement hb hout)
    · exact perform_texel_of_not_hasElement hx hy hb hin hle hout
  · intro hlt
    exact ⟨loadTexel_of_lt hx hy m v hin hlt, perform_texel_of_lt hx hy m v hin hlt⟩
  · by_cases hle : element w i j c ≤ Wide.max
    · rw [loadTexel_of_le hx hy m v hin hle, read_isOk_iff hb]
      exact (and_iff_right hle).symm
    · rw [loadTexel_of_lt hx hy m v hin (Int.not_le.mp hle)]
      simp [hle]

/-- The last texel of an image of two columns and three rows, over a buffer that ends before
it. -/
theorem texel_located_past_end :
    let m : Memory := .ofBuffers [⟨.int .uint8, #[1, 2, 3, 4]⟩]
    let v : View := ⟨.global 0, .int .uint8⟩
    let x : Value := .int .int8 1
    let y : Value := .int .uint64 2
    m.loadTexel v 3 2 x y 3 = .error (.outOfBounds .load 23 4) ∧
      m.perform [⟨v, texelAddress 3 2 x y 3, x⟩] = (m, .error (.outOfBounds .store 23 4)) := by
  intro m v x y
  have hb : m.buffer? v.buffer = some ⟨.int .uint8, #[1, 2, 3, 4]⟩ := rfl
  have hx : x.toInt? = some 1 := rfl
  have hy : y.toInt? = some 2 := rfl
  have hin : Has 3 2 1 2 := by decide
  have hlength : Buffer.lengthAs ⟨.int .uint8, #[1, 2, 3, 4]⟩ v.format = 4 := by decide
  have hnumber : element 2 1 2 3 = 23 := by decide
  obtain ⟨-, hwithin, -⟩ := texel_located hb hx hy hin 3
  rw [hlength, hnumber] at hwithin
  obtain ⟨-, -, hbeyond⟩ := hwithin (by decide)
  obtain ⟨hload, hstore⟩ := hbeyond (by decide)
  exact ⟨hload, hstore x []⟩

/-- A type of images that can be declared, with a texel whose element is far beyond the buffer.
The product that leads to its row is no wide integer, so that the access is a crash instead of
one that is out of bounds. -/
theorem texel_overflows :
    let height := 9223372036854775809
    let width := 9223372036854775808
    let b : Buffer := ⟨.int .uint8, #[1, 2, 3, 4, 5]⟩
    let m : Memory := .ofBuffers [b]
    let v : View := ⟨.global 0, .int .uint8⟩
    let x : Value := .int .uint64 0
    let y : Value := .int .uint64 9223372036854775808
    DType.parse "image:uint8:9223372036854775809x9223372036854775808" =
        .ok (.image (.int .uint8) height width) ∧
      x.WellFormed ∧ y.WellFormed ∧ Has height width 0 9223372036854775808 ∧
      ¬ b.HasElement (.int .uint8) (element width 0 9223372036854775808 0) ∧
      ¬ (∀ n ∈ partials width 0 9223372036854775808 0, Wide.contains n = true) ∧
      m.loadTexel v height width x y 0 = .error (.addressOverflow .multiply) ∧
      m.perform [⟨v, texelAddress height width x y 0, .int .uint8 9⟩] =
        (m, .error (.addressOverflow .multiply)) := by
  refine ⟨by rfl, by decide, by decide, by decide, by decide, by decide, ?_, ?_⟩
  · decide +kernel
  · decide +kernel

end Memory

end Lockstep
