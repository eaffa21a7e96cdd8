import CornerPoint.Compile.Catalog
import CornerPoint.Document.Solution
import CornerPoint.Source.Reader

/-!
# Solving for an editor

An editor hands over its text and the name of a problem, or an empty name for the only one,
and gets back what it draws and lists: the solution with the problem in words, or just the
outline of the feasible region. Whatever fails, the editor gets a message.
-/

namespace CornerPoint.Editor

open Source Compile

/-- Reads a text and compiles one of its problems. -/
def compileText (source name : String) : Except String (Compiled Float) :=
  match (Program.ofString source : Except SyntaxError (Program Float)) with
  | .error e => .error e.message
  | .ok program =>
    match Catalog.ofProgram program with
    | .error e => .error e.message
    | .ok catalog =>
      match catalog.compilePicked (if name.isEmpty then none else some name) with
      | .error e => .error e.message
      | .ok compiled => .ok compiled

/-- Reads a text, compiles one of its problems, and solves it with the usual tolerance. -/
def solveText (source name : String) : Except String (Compiled Float × Solution Float) :=
  match compileText source name with
  | .error message => .error message
  | .ok compiled =>
    match compiled.program.solve .arctangent Scalar.thousandth with
    | .error e => .error e.message
    | .ok solution => .ok (compiled, solution)

/-- The solution with the problem in words. There is no analysis when there is no optimum. -/
def solutionJson (c : Compiled Float) (s : Solution Float) : Json :=
  let v := c.program.vars
  .object [
    ("status", .string (if s.isOptimal then "optimal" else "infeasible")),
    ("problem", .string c.title),
    ("description", .ofOption .string c.description),
    ("variables", v.toJson),
    ("objective", .string (c.program.objective.text v)),
    ("constraints", .ofList
      (fun r => .object [("name", .string r.name), ("text", .string (r.text v))])
      c.program.constraints),
    ("vertices", .ofList Point.toJson s.corners),
    ("optimum", .ofOption Optimum.toJson s.optimum?),
    ("analysis", if s.isOptimal then s.analysis.toJson else .null),
    ("conflicts", .ofList (Conflict.toJson v) s.conflicts)]

/-- The coordinates of points, one after the other. -/
def coordinates {K : Type} (ps : List (Point K)) : List K := ps.flatMap fun p => [p.x, p.y]

end CornerPoint.Editor
