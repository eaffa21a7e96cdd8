import CornerPoint.Program.Objective

/-!
# Linear programs in two variables

A program is an objective and a list of constraints over two named variables that are never
negative. `LinearProgram.validate` finds the first defect that would make its geometry
meaningless: a number that is not finite, or a constraint without variables.
-/

namespace CornerPoint

/-- A linear program in two variables. That neither variable is negative is not listed among
the constraints. -/
structure LinearProgram (K : Type) where
  vars : Variables
  objective : Objective K
  constraints : List (Constraint K)

/-- Where a program has a number that is not finite. -/
inductive Location where
  | objective
  | constraint (name : String)
deriving DecidableEq

/-- Why a program cannot be solved at all. -/
inductive Defect where
  | nonFinite (location : Location)
  | degenerate (index : Nat) (name : String)
deriving DecidableEq

namespace Location

/-- The place as messages name it. -/
def text : Location → String
  | .objective => "objective"
  | .constraint name => "constraint " ++ name

end Location

namespace Defect

/-- The message for a defect. -/
def message : Defect → String
  | .nonFinite location => "Non-finite value in " ++ location.text
  | .degenerate index name =>
    "Constraint " ++ name ++ " (#" ++ toString index ++ ") has both coefficients zero"

end Defect

variable {K : Type} [Scalar K]

/-- The first defect among constraints, the first of which has the given index. In one
constraint a number that is not finite is found first. -/
def Constraint.firstDefect? (index : Nat) : List (Constraint K) → Option Defect
  | [] => none
  | c :: cs =>
    if !c.isFinite then some (.nonFinite (.constraint c.name))
    else if c.isDegenerate then some (.degenerate index c.name)
    else firstDefect? (index + 1) cs

namespace LinearProgram

/-- The first defect: that of the objective, or else that of the earliest constraint that has
one. -/
def defect? (p : LinearProgram K) : Option Defect :=
  if !(Scalar.isFinite p.objective.a && Scalar.isFinite p.objective.b) then
    some (.nonFinite .objective)
  else Constraint.firstDefect? 0 p.constraints

/-- Accepts exactly the programs without a defect. -/
def validate (p : LinearProgram K) : Except Defect Unit :=
  match p.defect? with
  | some defect => .error defect
  | none => .ok ()

end LinearProgram

end CornerPoint
