import CornerPoint.Plane.Constraint

/-!
# Objectives

What a program makes as large or as small as possible, and the best point among several.
-/

namespace CornerPoint

/-- Whether the objective is made large or small. -/
inductive Sense where
  | maximize
  | minimize
deriving DecidableEq

namespace Sense

/-- The sense as messages write it. -/
def word : Sense → String
  | .maximize => "maximize"
  | .minimize => "minimize"

/-- The other sense. -/
def flip : Sense → Sense
  | .maximize => .minimize
  | .minimize => .maximize

end Sense

/-- The linear form `a * x + b * y` and what is wanted of it. -/
@[ext] structure Objective (K : Type) where
  a : K
  b : K
  sense : Sense

/-- A point and the value of the objective there. -/
@[ext] structure Optimum (K : Type) where
  point : Point K
  value : K

namespace Objective

variable {K : Type} [Scalar K]

/-- The value of the objective at a point. -/
def valueAt (o : Objective K) (p : Point K) : K := o.a * p.x + o.b * p.y

/-- The first value is strictly better than the second. -/
def improves (o : Objective K) (value than : K) : Bool :=
  match o.sense with
  | .maximize => than < value
  | .minimize => value < than

/-- The objective as it is written: `maximize 3x1 - 2x2`. -/
def text (v : Variables) (o : Objective K) : String := o.sense.word ++ " " ++ v.form o.a o.b

/-- A point with its value. -/
def optimumAt (o : Objective K) (p : Point K) : Optimum K := ⟨p, o.valueAt p⟩

/-- Goes through points and keeps the best so far. A later point has to be strictly better
to take over, so that the earliest of equally good ones stays. -/
def bestFrom (o : Objective K) (top : Optimum K) : List (Point K) → Optimum K
  | [] => top
  | p :: ps => bestFrom o (if o.improves (o.valueAt p) top.value then o.optimumAt p else top) ps

/-- The earliest best point, if there is any point. -/
def best? (o : Objective K) : List (Point K) → Option (Optimum K)
  | [] => none
  | p :: ps => some (o.bestFrom (o.optimumAt p) ps)

/-- The points that are not near the optimum but whose values are within `eps` of it. -/
def alternatives (o : Objective K) (eps : K) (top : Optimum K) (ps : List (Point K)) :
    List (Point K) :=
  ps.filter fun p => !p.near top.point eps && Scalar.abs (o.valueAt p - top.value) < eps

end Objective

end CornerPoint
