import CornerPoint.Number.Scalar

/-!
# Points of the plane

Points, their closeness up to a tolerance, and the mean of several points.
-/

namespace CornerPoint

/-- A point, given by the values of the two variables. -/
@[ext] structure Point (K : Type) where
  x : K
  y : K

namespace Point

variable {K : Type}

/-- The coordinates in parentheses, each written by `number`. -/
def textWith (number : K → String) (p : Point K) : String :=
  "(" ++ number p.x ++ ", " ++ number p.y ++ ")"

variable [Scalar K]

/-- The coordinates in parentheses, in full. -/
def text (p : Point K) : String := p.textWith Scalar.text

/-- The point where both variables are zero. -/
def origin : Point K := ⟨0, 0⟩

/-- Both coordinates differ by less than `eps`. -/
def near (p q : Point K) (eps : K) : Bool :=
  Scalar.abs (p.x - q.x) < eps && Scalar.abs (p.y - q.y) < eps

/-- The point lies in the quadrant that every program is confined to. -/
def inQuadrant (p : Point K) : Bool := 0 ≤ p.x && 0 ≤ p.y

/-- The coordinatewise sum, added from the left. -/
def sum (ps : List (Point K)) : Point K :=
  ps.foldl (fun s p => ⟨s.x + p.x, s.y + p.y⟩) origin

/-- The coordinatewise mean; no points have none. -/
def mean? (ps : List (Point K)) : Option (Point K) :=
  if ps.isEmpty then none
  else
    let n : K := (ps.length : K)
    some ⟨(sum ps).x / n, (sum ps).y / n⟩

end Point

end CornerPoint
