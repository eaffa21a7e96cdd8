import CornerPoint.Plane.Candidate
import CornerPoint.Program.LinearProgram

/-!
# Conflicts between constraints

When no candidate is feasible, the cause is often local: one constraint that excludes the
whole quadrant, or two parallel constraints that leave no room between them. Both are found
here. Three or more constraints that only together exclude every point are not explained.
-/

namespace CornerPoint

/-- A local cause of infeasibility. -/
inductive Conflict (K : Type) where
  /-- No point of the quadrant satisfies the constraint. -/
  | outside (c : Constraint K)
  /-- The two constraints are parallel and exclude each other. -/
  | apart (c d : Constraint K)

/-- Bounds on a linear form; none on a side where it is free. -/
structure Bounds (K : Type) where
  lower : Option K
  upper : Option K

namespace Bounds

variable {K : Type}

/-- No bounds. -/
def free : Bounds K := ⟨none, none⟩

variable [Scalar K]

/-- The greater of a bound that may be missing and a new one. -/
def greater : Option K → K → K
  | none, r => r
  | some l, r => if l < r then r else l

/-- The smaller of a bound that may be missing and a new one. -/
def smaller : Option K → K → K
  | none, r => r
  | some u, r => if r < u then r else u

/-- Adds what a relation to `rhs` says about the form. -/
def tighten (b : Bounds K) (relation : Relation) (rhs : K) : Bounds K :=
  match relation with
  | .le => { b with upper := some (smaller b.upper rhs) }
  | .ge => { b with lower := some (greater b.lower rhs) }
  | .eq => ⟨some (greater b.lower rhs), some (smaller b.upper rhs)⟩

/-- The lower bound exceeds the upper one by more than `eps`. -/
def exclude (b : Bounds K) (eps : K) : Bool :=
  match b.lower, b.upper with
  | some l, some u => u + eps < l
  | _, _ => false

end Bounds

namespace Constraint

variable {K : Type} [Scalar K]

/-- Excludes every point of the quadrant by more than `eps`: the form cannot be negative but
would have to be, or cannot be positive but would have to be. -/
def excludesQuadrant (eps : K) (c : Constraint K) : Bool :=
  let below := decide (0 ≤ c.a) && decide (0 ≤ c.b) && decide (c.rhs < -eps)
  let above := decide (c.a ≤ 0) && decide (c.b ≤ 0) && decide (eps < c.rhs)
  match c.relation with
  | .le => below
  | .ge => above
  | .eq => below || above

/-- How many times the second constraint's form is the first one's, read off the larger
coefficient of the first. -/
def ratio (c d : Constraint K) : K :=
  if Scalar.abs c.b ≤ Scalar.abs c.a then d.a / c.a else d.b / c.b

/-- What two parallel constraints together say about the form of the first; nothing is said
of constraints that are not parallel. The second is divided by the ratio of the forms, which
turns its relation around when the ratio is negative. -/
def jointBounds? (eps : K) (c d : Constraint K) : Option (Bounds K) :=
  if eps ≤ Scalar.abs (c.det d) then none
  else
    let k := c.ratio d
    if !Scalar.isFinite k || k == 0 then none
    else
      let relation := if 0 < k then d.relation else d.relation.flip
      some ((Bounds.free.tighten c.relation c.rhs).tighten relation (d.rhs / k))

/-- The two constraints are parallel and leave no room between them. -/
def excludes (eps : K) (c d : Constraint K) : Bool :=
  (c.jointBounds? eps d).any (·.exclude eps)

end Constraint

namespace Conflict

variable {K : Type}

/-- The constraints that are in conflict. -/
def constraints : Conflict K → List (Constraint K)
  | .outside c => [c]
  | .apart c d => [c, d]

/-- The names of the constraints that are in conflict. -/
def names (f : Conflict K) : List String := f.constraints.map (·.name)

/-- The conflict in words. -/
def text [Scalar K] (v : Variables) : Conflict K → String
  | .outside c =>
    c.name ++ " requires " ++ c.text v ++ ", which no point with non-negative " ++ v.x ++ " and "
      ++ v.y ++ " satisfies"
  | .apart c d =>
    "Conflict: " ++ c.name ++ " (" ++ c.text v ++ ") and " ++ d.name ++ " (" ++ d.text v
      ++ ") are parallel and leave no room between them"

end Conflict

/-- The local conflicts: single constraints in order, then pairs in order. -/
def LinearProgram.conflicts {K : Type} [Scalar K] (p : LinearProgram K) (eps : K) :
    List (Conflict K) :=
  (p.constraints.filter (·.excludesQuadrant eps)).map .outside
    ++ ((pairs p.constraints).filter fun (c, d) => c.excludes eps d).map fun (c, d) => .apart c d

end CornerPoint
