import CornerPoint.Plane.Point

/-!
# Sorting points around their mean

The corners of a region are listed in the order in which a ray that turns around their mean
meets them. A `Sweep` says how the directions of two points are compared; nothing else about
angles is ever used, so that every statement about sorted points holds for any sweep. The
sort is stable: points in the same direction keep their order.
-/

namespace CornerPoint

/-- A way to compare directions: each has an angle, and the angles are totally preordered. -/
structure Sweep (K : Type) where
  Angle : Type
  /-- The angle of the vector with the given coordinates. -/
  angle : K → K → Angle
  /-- The first angle is met no later than the second. -/
  le : Angle → Angle → Bool
  le_trans : ∀ a b c, le a b = true → le b c = true → le a c = true
  le_total : ∀ a b, (le a b || le b a) = true

namespace Sweep

variable {K : Type} [Scalar K]

/-- The angle in which `center` sees `p`. -/
def angleFrom (s : Sweep K) (center p : Point K) : s.Angle :=
  s.angle (p.x - center.x) (p.y - center.y)

/-- `p` is met no later than `q` when the ray turns around `center`. -/
def before (s : Sweep K) (center p q : Point K) : Bool :=
  s.le (s.angleFrom center p) (s.angleFrom center q)

/-- The points sorted by their angle around their mean. -/
def sort (s : Sweep K) (ps : List (Point K)) : List (Point K) :=
  match Point.mean? ps with
  | none => []
  | some center => ps.mergeSort (s.before center)

end Sweep

/-! ## Doubles -/

/-- The place of a double in the total order of all doubles, in which negative zero comes
before zero and every not-a-number beyond the infinity of its sign. -/
def Double.rank (x : Float) : Int :=
  let bits := x.toBits.toNat
  if bits < Nat.pow 2 63 then bits else Nat.pow 2 63 - 1 - (bits : Int)

/-- Compares directions by their angle between minus half a turn and half a turn, measured
from the direction of the first axis. -/
def Sweep.arctangent : Sweep Float where
  Angle := Float
  angle dx dy := Float.atan2 dy dx
  le a b := Double.rank a ≤ Double.rank b
  le_trans a b c h h' := by simp only [decide_eq_true_eq] at *; omega
  le_total a b := by simp only [Bool.or_eq_true, decide_eq_true_eq]; omega

end CornerPoint
