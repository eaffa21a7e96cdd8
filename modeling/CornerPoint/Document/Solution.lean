import CornerPoint.Compile.Problem
import CornerPoint.Document.Json
import CornerPoint.Program.Solution

/-!
# Programs and solutions as documents

The fields of every object stand in alphabetical order.
-/

namespace CornerPoint

/-- The sense as documents of programs name it. -/
def Sense.toJson : Sense → Json
  | .maximize => .string "Maximize"
  | .minimize => .string "Minimize"

/-- An objective by its coefficients and sense. -/
def Objective.toJson (o : Objective Float) : Json :=
  .object [("a", .number o.a), ("b", .number o.b), ("direction", o.sense.toJson)]

/-- A constraint by its name and numbers. -/
def Constraint.toJson (c : Constraint Float) : Json :=
  .object [("a", .number c.a), ("b", .number c.b), ("name", .string c.name),
    ("op", .string c.relation.label), ("rhs", .number c.rhs)]

/-- The names of the two variables in order. -/
def Variables.toJson (v : Variables) : Json := .array [.string v.x, .string v.y]

/-- A whole program. -/
def LinearProgram.toJson (p : LinearProgram Float) : Json :=
  .object [("constraints", .ofList Constraint.toJson p.constraints),
    ("objective", p.objective.toJson), ("variables", p.vars.toJson)]

/-- A point by its coordinates. -/
def Point.toJson (p : Point Float) : Json := .object [("x", .number p.x), ("y", .number p.y)]

/-- A point and its value. -/
def Optimum.toJson (o : Optimum Float) : Json :=
  .object [("point", o.point.toJson), ("value", .number o.value)]

/-- The slack of one constraint. -/
def Slack.toJson (s : Slack Float) : Json :=
  .object [("binding", .bool s.binding), ("constraint", .string s.constraint),
    ("lhs", .number s.lhs), ("slack", .number s.slack)]

/-- The analysis of an optimum, the binding constraints listed by name. -/
def Analysis.toJson (a : Analysis Float) : Json :=
  .object [("alternative_optima", .ofList Point.toJson a.alternatives),
    ("binding_constraints", .ofList .string a.bindingConstraints),
    ("slacks", .ofList Slack.toJson a.slacks)]

/-- A conflict in terms of the program's variables. -/
def Conflict.toJson (v : Variables) (f : Conflict Float) : Json :=
  .object [("constraints", .ofList .string f.names), ("description", .string (f.text v))]

/-- A solution in terms of the program's variables. -/
def Solution.toJson (v : Variables) (s : Solution Float) : Json :=
  .object [("analysis", s.analysis.toJson),
    ("conflicts", .ofList (Conflict.toJson v) s.conflicts),
    ("optimum", .ofOption Optimum.toJson s.optimum?),
    ("status", .string (if s.isOptimal then "Optimal" else "Infeasible")),
    ("vertices", .ofList Point.toJson s.corners)]

namespace Compile

/-- A compiled problem by itself. -/
def Compiled.toJson (c : Compiled Float) : Json :=
  .object [("description", .ofOption .string c.description),
    ("display_name", .ofOption .string c.displayName), ("lp", c.program.toJson),
    ("name", .string c.name)]

/-- A compiled problem together with its solution. -/
def Compiled.solvedJson (c : Compiled Float) (s : Solution Float) : Json :=
  .object [("description", .ofOption .string c.description), ("lp", c.program.toJson),
    ("name", .ofOption .string c.displayName), ("problem", .string c.name),
    ("solution", s.toJson c.program.vars)]

end Compile

end CornerPoint
