import CornerPoint.Plane.Candidate
import CornerPoint.Plane.Sweep

/-!
# The corners of the feasible region

The feasible candidates, without near duplicates, in the order in which they lie around
their mean.
-/

namespace CornerPoint

variable {K : Type} [Scalar K]

/-- The points that are near none of `kept` and near no point kept before them. -/
def distinctFrom (eps : K) (kept : List (Point K)) : List (Point K) → List (Point K)
  | [] => []
  | p :: ps =>
    if kept.any (·.near p eps) then distinctFrom eps kept ps
    else p :: distinctFrom eps (p :: kept) ps

/-- The points that are near no point kept before them. The first of several near points
stays; closeness is not transitive, so what stays depends on the order. -/
def distinct (eps : K) (ps : List (Point K)) : List (Point K) := distinctFrom eps [] ps

/-- The candidates that satisfy all constraints up to `eps`, duplicates included. -/
def feasibleCandidates (cs : List (Constraint K)) (eps : K) : List (Point K) :=
  (candidates cs eps).filter (feasible cs eps)

/-- The corners of the feasible region in order around their mean. There are none when no
candidate is feasible. -/
def corners (sweep : Sweep K) (cs : List (Constraint K)) (eps : K) : List (Point K) :=
  sweep.sort (distinct eps (feasibleCandidates cs eps))

end CornerPoint
