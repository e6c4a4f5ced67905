import Lockstep.Grid
import Mathlib.Data.List.Nodup

/-!
# The order of points

The points of a grid are those of three loops, one inside the other, with `x` the innermost and
`z` the outermost. The place of a point in that order and the point at a place are each other's
inverses, so that every point of the box comes once, also when an extent is zero.
-/

namespace Lockstep

/-- Two loops visit the pairs of their counters in the order of one counter that is taken apart
by division. -/
theorem flatMap_range_map {α : Type} (f : Nat → Nat → α) (a b : Nat) :
    ((List.range b).flatMap fun j => (List.range a).map fun i => f i j) =
      (List.range (a * b)).map fun n => f (n % a) (n / a) := by
  induction b with
  | zero => rfl
  | succ b ih =>
    have hlast : ((List.range a).map fun i => f i b) =
        (List.range a).map fun i => f ((a * b + i) % a) ((a * b + i) / a) := by
      refine List.map_congr_left fun i hi => ?_
      have hlt : i < a := List.mem_range.mp hi
      rw [Nat.mul_add_mod, Nat.mod_eq_of_lt hlt, Nat.mul_add_div (Nat.zero_lt_of_lt hlt),
        Nat.div_eq_of_lt hlt, Nat.add_zero]
    rw [List.range_succ, List.flatMap_append, List.flatMap_singleton, ih, hlast, Nat.mul_succ,
      List.range_add, List.map_append, List.map_map]
    rfl

namespace Grid

variable {size p : Point} {n : Nat}

/-- The points of three nested loops, `x` innermost. -/
def loops (size : Point) : List Point :=
  (List.range size.z).flatMap fun z =>
    (List.range size.y).flatMap fun y =>
      (List.range size.x).map fun x => ⟨x, y, z⟩

/-- How many points come before a point. -/
def place (size p : Point) : Nat :=
  p.x + p.y * size.x + p.z * size.x * size.y

theorem points_eq_loops (size : Point) : points size = loops size := by
  have hlayer (z : Nat) : ((List.range size.y).flatMap fun y =>
      (List.range size.x).map fun x => (⟨x, y, z⟩ : Point)) =
        (List.range (size.x * size.y)).map fun n => ⟨n % size.x, n / size.x, z⟩ :=
    flatMap_range_map (fun x y => (⟨x, y, z⟩ : Point)) size.x size.y
  have hbox := flatMap_range_map (fun n z => (⟨n % size.x, n / size.x, z⟩ : Point))
    (size.x * size.y) size.z
  simp only [Nat.mod_mul_right_mod, Nat.mod_mul_right_div_self] at hbox
  rw [loops, funext hlayer, hbox]
  rfl

theorem place_point (size : Point) (n : Nat) : place size (point size n) = n := by
  have hlayer : n % size.x + n / size.x % size.y * size.x = n % (size.x * size.y) := by
    rw [Nat.mod_mul, Nat.mul_comm size.x]
  change n % size.x + n / size.x % size.y * size.x + n / (size.x * size.y) * size.x * size.y = n
  rw [hlayer, Nat.mul_assoc, Nat.mod_add_div']

theorem length_points (size : Point) : (points size).length = size.volume := by
  rw [points, List.length_map, List.length_range]

theorem mem_points : p ∈ points size ↔ p.x < size.x ∧ p.y < size.y ∧ p.z < size.z := by
  rw [points_eq_loops]
  simp only [loops, List.mem_flatMap, List.mem_map, List.mem_range]
  constructor
  · rintro ⟨z, hz, y, hy, x, hx, rfl⟩
    exact ⟨hx, hy, hz⟩
  · rintro ⟨hx, hy, hz⟩
    exact ⟨p.z, hz, p.y, hy, p.x, hx, rfl⟩

theorem nodup_points (size : Point) : (points size).Nodup :=
  List.nodup_range.map (Function.LeftInverse.injective (place_point size))

theorem getElem?_points (h : n < size.volume) : (points size)[n]? = some (point size n) := by
  rw [points, List.getElem?_map, List.getElem?_range h]
  rfl

theorem place_of_getElem? (h : (points size)[n]? = some p) : n = place size p := by
  have hlt : n < size.volume := by
    rw [← length_points]
    exact (List.getElem?_eq_some_iff.mp h).1
  rw [getElem?_points hlt] at h
  rw [← Option.some.inj h, place_point]

/-- Points that are taken one after another are the first ones of all. -/
theorem take_eq (size : Point) (limit : Nat) : take size limit = (points size).take limit := by
  rw [take, points, ← List.map_take, List.take_range]

/-- The list enumerates the points of a box, `x` fastest and `z` slowest. -/
structure Enumerates (size : Point) (ps : List Point) : Prop where
  eq_loops : ps = loops size
  length_eq : ps.length = size.x * size.y * size.z
  mem_iff : ∀ p, p ∈ ps ↔ p.x < size.x ∧ p.y < size.y ∧ p.z < size.z
  nodup : ps.Nodup
  getElem?_eq : ∀ n < size.x * size.y * size.z,
    ps[n]? = some ⟨n % size.x, n / size.x % size.y, n / (size.x * size.y)⟩
  place_eq : ∀ n p, ps[n]? = some p → n = p.x + p.y * size.x + p.z * size.x * size.y
  /-- an enumeration that is broken off gives the first points -/
  take_eq : ∀ limit, take size limit = ps.take limit

theorem enumerates_points (size : Point) : Enumerates size (points size) where
  eq_loops := points_eq_loops size
  length_eq := length_points size
  mem_iff _ := mem_points
  nodup := nodup_points size
  getElem?_eq _ hn := getElem?_points hn
  place_eq _ _ h := place_of_getElem? h
  take_eq := take_eq size

end Grid

end Lockstep
