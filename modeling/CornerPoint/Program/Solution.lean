import CornerPoint.Plane.Region
import CornerPoint.Program.Conflict

/-!
# Solving a program by its corners

A linear objective over a polygon is best at a corner. So a program is solved by listing the
corners of its feasible region and taking the best of them; when there are none, the local
conflicts between constraints are listed instead. One tolerance is used in every comparison.
If the region is unbounded in the direction of the objective, the best corner is reported all
the same.
-/

namespace CornerPoint

/-- How far a constraint is from its bound at the optimum. -/
structure Slack (K : Type) where
  constraint : String
  lhs : K
  slack : K
  /-- The optimum lies on the line of the constraint, up to the tolerance. -/
  binding : Bool

/-- What the optimum looks like to the constraints and among the other corners. -/
structure Analysis (K : Type) where
  slacks : List (Slack K)
  alternatives : List (Point K)

/-- The names of the constraints whose lines pass through the optimum. -/
def Analysis.bindingConstraints {K : Type} (a : Analysis K) : List String :=
  (a.slacks.filter (·.binding)).map (·.constraint)

/-- The outcome for a program without defects. -/
inductive Solution (K : Type) where
  /-- There is a feasible corner, and `optimum` is the best one. -/
  | optimal (optimum : Optimum K) (corners : List (Point K)) (analysis : Analysis K)
  /-- No candidate is feasible. -/
  | infeasible (conflicts : List (Conflict K))

namespace Solution

variable {K : Type}

/-- Whether there is a feasible corner. -/
def isOptimal : Solution K → Bool
  | .optimal .. => true
  | .infeasible _ => false

/-- The best corner and its value. -/
def optimum? : Solution K → Option (Optimum K)
  | .optimal optimum _ _ => some optimum
  | .infeasible _ => none

/-- The corners of the feasible region in order around their mean. -/
def corners : Solution K → List (Point K)
  | .optimal _ corners _ => corners
  | .infeasible _ => []

/-- The analysis of the optimum, which is empty when there is none. -/
def analysis : Solution K → Analysis K
  | .optimal _ _ analysis => analysis
  | .infeasible _ => ⟨[], []⟩

/-- The local conflicts, of which a feasible program reports none. -/
def conflicts : Solution K → List (Conflict K)
  | .optimal .. => []
  | .infeasible conflicts => conflicts

end Solution

/-- Why there is no outcome. -/
inductive SolveError (K : Type) where
  | tolerance (tolerance : K)
  | defect (defect : Defect)

/-- The message for a failure to solve. -/
def SolveError.message {K : Type} [Scalar K] : SolveError K → String
  | .tolerance t => "Tolerance must be positive and finite, got " ++ Scalar.text t
  | .defect d => d.message

variable {K : Type} [Scalar K]

/-- The slack of a constraint at a point. -/
def Constraint.slackAt (eps : K) (p : Point K) (c : Constraint K) : Slack K where
  constraint := c.name
  lhs := c.lhsAt p
  slack := match c.relation with
    | .le => c.rhs - c.lhsAt p
    | .ge => c.lhsAt p - c.rhs
    | .eq => Scalar.abs (c.lhsAt p - c.rhs)
  binding := Scalar.abs (c.lhsAt p - c.rhs) < eps

namespace LinearProgram

/-- The analysis of an optimum among the corners. -/
def analyze (p : LinearProgram K) (eps : K) (corners : List (Point K)) (top : Optimum K) :
    Analysis K where
  slacks := p.constraints.map (·.slackAt eps top.point)
  alternatives := p.objective.alternatives eps top corners

/-- The outcome for a program and a tolerance that are both in order. -/
def solution (sweep : Sweep K) (eps : K) (p : LinearProgram K) : Solution K :=
  let corners := corners sweep p.constraints eps
  match p.objective.best? corners with
  | some top => .optimal top corners (p.analyze eps corners top)
  | none => .infeasible (p.conflicts eps)

/-- Solves a program. The tolerance has to be positive and finite, which is checked first;
then the program must have no defect. -/
def solve (sweep : Sweep K) (eps : K) (p : LinearProgram K) :
    Except (SolveError K) (Solution K) :=
  if !(Scalar.isFinite eps && 0 < eps) then .error (.tolerance eps)
  else
    match p.defect? with
    | some defect => .error (.defect defect)
    | none => .ok (p.solution sweep eps)

end LinearProgram

end CornerPoint
