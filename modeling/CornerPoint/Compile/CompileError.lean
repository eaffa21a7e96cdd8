import CornerPoint.Compile.Linear
import CornerPoint.Program.LinearProgram

/-!
# Why a problem cannot be compiled

Problems are found and compiled by name; both can fail.
-/

namespace CornerPoint.Compile

/-- Why there is no compiled problem. -/
inductive CompileError where
  | unknownProblem (name : String)
  | duplicateProblem (name : String)
  | noProblems
  | ambiguousProblem (names : List String)
  | variableCount (problem : String) (count : Nat)
  | duplicateVariable (problem : String) (name : String)
  | expression (problem : String) (cause : ExprError)
  | duplicateConstraint (problem : String) (label : String)
  | missingObjective (problem : String)
  | multipleObjectives (problem : String)
  /-- The objective, as it is written, has a constant term. -/
  | constantInObjective (problem : String) (text : String)
  | invalid (problem : String) (defect : Defect)
deriving DecidableEq

/-- The message for an expression without a linear form. -/
def ExprError.message (problem : String) : ExprError → String
  | .unknownVariable name => "Unknown variable " ++ name ++ " in problem " ++ problem
  | .nonLinear text => "Expression is not linear: " ++ text
  | .divisionByZero => "Division by zero in expression"

/-- The message for a problem that cannot be compiled. -/
def CompileError.message : CompileError → String
  | .unknownProblem name => "Unknown problem: " ++ name
  | .duplicateProblem name => "Duplicate problem definition: " ++ name
  | .noProblems => "No problem defined"
  | .ambiguousProblem names =>
    "Several problems defined, pick one of: " ++ ", ".intercalate names
  | .variableCount problem count =>
    "Problem " ++ problem ++ " declares " ++ toString count
      ++ " variables; exactly two are needed"
  | .duplicateVariable problem name =>
    "Problem " ++ problem ++ " declares variable " ++ name ++ " twice"
  | .expression problem cause => cause.message problem
  | .duplicateConstraint problem label =>
    "Duplicate constraint label " ++ label ++ " in problem " ++ problem
  | .missingObjective problem => "Missing objective in problem " ++ problem
  | .multipleObjectives problem => "Problem " ++ problem ++ " has more than one objective"
  | .constantInObjective problem text =>
    "Objective of problem " ++ problem ++ " has a constant term: " ++ text
  | .invalid problem defect => "Invalid problem " ++ problem ++ ": " ++ defect.message

end CornerPoint.Compile
