import CornerPoint.Plane.Constraint

/-!
# Candidates for corners

A corner of a feasible region lies on two boundaries: axes or lines of constraints. So the
origin, the points where a line meets an axis, and the points where two lines meet are all
the candidates there are. Candidates outside the quadrant are left out; whether the others
are feasible is not asked here.
-/

namespace CornerPoint

/-- All pairs of an element and a later one, ordered by the places of both. -/
def pairs {α : Type} : List α → List (α × α)
  | [] => []
  | a :: l => l.map (a, ·) ++ pairs l

variable {K : Type} [Scalar K]

namespace Constraint

/-- Where the line meets the axis of the first variable, if it does so in the quadrant. -/
def xIntercept (c : Constraint K) : Option (Point K) :=
  if c.a == 0 then none else some (Point.mk (c.rhs / c.a) 0) |>.filter Point.inQuadrant

/-- Where the line meets the axis of the second variable, if it does so in the quadrant. -/
def yIntercept (c : Constraint K) : Option (Point K) :=
  if c.b == 0 then none else some (Point.mk 0 (c.rhs / c.b)) |>.filter Point.inQuadrant

/-- The points where the line meets the axes in the quadrant. -/
def intercepts (c : Constraint K) : List (Point K) :=
  c.xIntercept.toList ++ c.yIntercept.toList

/-- The determinant of the coefficients of two constraints: zero when the lines are
parallel. -/
def det (c d : Constraint K) : K := c.a * d.b - d.a * c.b

/-- Where two lines meet. Lines with a determinant below `eps` count as parallel. -/
def crossing (eps : K) (c d : Constraint K) : Option (Point K) :=
  if Scalar.abs (c.det d) < eps then none
  else some ⟨(c.rhs * d.b - d.rhs * c.b) / c.det d, (c.a * d.rhs - d.a * c.rhs) / c.det d⟩

end Constraint

/-- All candidates: the origin, the intercepts by constraint, and the crossings by pairs of
constraints. -/
def candidates (cs : List (Constraint K)) (eps : K) : List (Point K) :=
  Point.origin
    :: (cs.filter (!·.isDegenerate)).flatMap Constraint.intercepts
    ++ (pairs cs).filterMap fun (c, d) => (c.crossing eps d).filter Point.inQuadrant

end CornerPoint
