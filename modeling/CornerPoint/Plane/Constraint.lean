import CornerPoint.Plane.Point

/-!
# Constraints

A constraint compares a linear form in the two variables with a number. Its points form a
half-plane, or a line when it is an equation, and it is tested up to a tolerance.
-/

namespace CornerPoint

/-- How the two sides of a constraint are compared. -/
inductive Relation where
  | le
  | ge
  | eq
deriving DecidableEq

namespace Relation

/-- The relation as it is written in programs and messages. -/
def symbol : Relation → String
  | .le => "<="
  | .ge => ">="
  | .eq => "="

/-- The relation as it is written in documents. -/
def label : Relation → String
  | .le => "Le"
  | .ge => "Ge"
  | .eq => "Eq"

/-- The relation between the negated sides. -/
def flip : Relation → Relation
  | .le => .ge
  | .ge => .le
  | .eq => .eq

end Relation

/-- The names of the two variables. -/
structure Variables where
  x : String
  y : String
deriving DecidableEq

/-- The names that the variables have when a program gives them none. -/
def Variables.standard : Variables := ⟨"x1", "x2"⟩

/-- A linear form as it is written: `2x1 - 1x2`. The second coefficient shows its magnitude
behind a minus when it is negative and behind a plus otherwise. -/
def Variables.form {K : Type} [Scalar K] (v : Variables) (a b : K) : String :=
  Scalar.text a ++ v.x ++ (if b < 0 then " - " else " + ") ++ Scalar.text (Scalar.abs b) ++ v.y

/-- `a * x + b * y` stands in a relation to `rhs`. -/
@[ext] structure Constraint (K : Type) where
  name : String
  a : K
  b : K
  relation : Relation
  rhs : K

namespace Constraint

variable {K : Type} [Scalar K]

/-- The left-hand side at a point. -/
def lhsAt (c : Constraint K) (p : Point K) : K := c.a * p.x + c.b * p.y

/-- The point satisfies the constraint up to `eps`. -/
def holds (c : Constraint K) (eps : K) (p : Point K) : Bool :=
  match c.relation with
  | .le => c.lhsAt p ≤ c.rhs + eps
  | .ge => c.rhs - eps ≤ c.lhsAt p
  | .eq => Scalar.abs (c.lhsAt p - c.rhs) < eps

/-- Both coefficients are zero, so that the boundary is no line. -/
def isDegenerate (c : Constraint K) : Bool := c.a == 0 && c.b == 0

/-- All three numbers are finite. -/
def isFinite (c : Constraint K) : Bool :=
  Scalar.isFinite c.a && Scalar.isFinite c.b && Scalar.isFinite c.rhs

/-- The constraint as it is written: `2x1 + 1x2 <= 15`. -/
def text (v : Variables) (c : Constraint K) : String :=
  v.form c.a c.b ++ " " ++ c.relation.symbol ++ " " ++ Scalar.text c.rhs

end Constraint

/-! ## Several constraints -/

/-- The point satisfies all constraints up to `eps`. The quadrant is not tested. -/
def feasible {K : Type} [Scalar K] (cs : List (Constraint K)) (eps : K) (p : Point K) : Bool :=
  cs.all (·.holds eps p)

/-- The constraints that the point does not satisfy up to `eps`, in order. -/
def violated {K : Type} [Scalar K] (cs : List (Constraint K)) (eps : K) (p : Point K) :
    List (Constraint K) :=
  cs.filter (!·.holds eps p)

end CornerPoint
