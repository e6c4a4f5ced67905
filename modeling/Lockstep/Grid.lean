/-!
# Grids and warps

The points of a three-dimensional grid, `x` fastest and `z` slowest, and the
lanes of a warp, which are the points of its local grid.
-/

namespace Lockstep

/-- A point of a grid, or the size of one. -/
structure Point where
  x : Nat
  y : Nat
  z : Nat
  deriving DecidableEq

namespace Point

def axis? (p : Point) : Nat → Option Nat
  | 0 => some p.x
  | 1 => some p.y
  | 2 => some p.z
  | _ => none

/-- Number of points of a grid of this size, which may be more than a machine word can count. -/
def volume (size : Point) : Nat := size.x * size.y * size.z

end Point

namespace Grid

/-- The point at a place in the order of enumeration. -/
def point (size : Point) (n : Nat) : Point :=
  ⟨n % size.x, n / size.x % size.y, n / (size.x * size.y)⟩

/-- At most `limit` points, in order. -/
def take (size : Point) (limit : Nat) : List Point :=
  (List.range (min limit size.volume)).map (point size)

def points (size : Point) : List Point :=
  (List.range size.volume).map (point size)

end Grid

/-- The lanes that advance together, as a box. -/
structure Warp where
  /-- extent along each axis -/
  size : Point
  deriving DecidableEq

namespace Warp

def laneCount (w : Warp) : Nat := w.size.volume

/-- The local coordinates of the lanes. -/
def lanes (w : Warp) : List Point := Grid.points w.size

/-- The same element on every lane. -/
def splat {α : Type} (w : Warp) (a : α) : List α :=
  List.replicate w.laneCount a

end Warp

end Lockstep
