import CornerPoint.Compile.CompileError
import CornerPoint.Source.Program

/-!
# Compiling a problem

A problem becomes a linear program: its variables are settled, its one objective is lowered,
and each constraint is lowered to a row with all variables on the left and the number on the
right. What is checked, and in which order, decides which of several faults is reported:
variables first, then the objective, then the constraints one by one, and last the whole
program.
-/

namespace CornerPoint.Compile

open Source

/-- A compiled problem with the texts that describe it. -/
structure Compiled (K : Type) where
  name : String
  displayName : Option String
  description : Option String
  program : LinearProgram K

/-- The name that reports use. -/
def Compiled.title {K : Type} (c : Compiled K) : String := c.displayName.getD c.name

variable {K : Type}

/-- The two variables of a problem: those that it lists, or the standard ones. -/
def variablesOf (p : Problem K) : Except CompileError Variables :=
  match p.vars with
  | none => .ok .standard
  | some list =>
    match list.names with
    | [x, y] => if x = y then .error (.duplicateVariable p.name x) else .ok ⟨x, y⟩
    | names => .error (.variableCount p.name names.length)

variable [Scalar K]

/-- Turns negative zero into zero, so that no coefficient reads `-0`. -/
def plain (k : K) : K := if k == 0 then 0 else k

/-- The objective of a problem. It must be the only one, finite, and without a constant
term. -/
def objectiveOf (p : Problem K) (v : Variables) : Except CompileError (Objective K) :=
  match p.objectives with
  | [] => .error (.missingObjective p.name)
  | [line] =>
    match lower v line.expr with
    | .error e => .error (.expression p.name e)
    | .ok l =>
      if !l.isFinite then .error (.invalid p.name (.nonFinite .objective))
      else if l.c == 0 then .ok ⟨plain l.a, plain l.b, line.sense⟩
      else .error (.constantInObjective p.name line.expr.text)
  | _ => .error (.multipleObjectives p.name)

/-- The row of a constraint: all variables go to the left and the number to the right. -/
def rowOf (v : Variables) (label : String) (line : ConstraintLine K) :
    Except ExprError (Constraint K) :=
  match lower v line.lhs, lower v line.rhs with
  | .error e, _ => .error e
  | _, .error e => .error e
  | .ok l, .ok r =>
    let d := l.sub r
    .ok ⟨label, plain d.a, plain d.b, line.relation, plain (0 - d.c)⟩

/-- The label of the constraint with the given index: its own, or one made from its place. -/
def labelOf (index : Nat) (line : ConstraintLine K) : String :=
  line.label.getD ("c" ++ toString (index + 1))

/-- The rows of constraints, the first of which has the given index. No label may be among
`used` or be repeated. -/
def rowsFrom (problem : String) (v : Variables) (index : Nat) (used : List String) :
    List (ConstraintLine K) → Except CompileError (List (Constraint K))
  | [] => .ok []
  | line :: rest =>
    let label := labelOf index line
    if used.contains label then .error (.duplicateConstraint problem label)
    else
      match rowOf v label line with
      | .error e => .error (.expression problem e)
      | .ok row =>
        match rowsFrom problem v (index + 1) (label :: used) rest with
        | .error e => .error e
        | .ok rows => .ok (row :: rows)

/-- The linear program of a problem. -/
def programOf (p : Problem K) : Except CompileError (LinearProgram K) :=
  match variablesOf p with
  | .error e => .error e
  | .ok v =>
    match objectiveOf p v with
    | .error e => .error e
    | .ok objective =>
      match rowsFrom p.name v 0 [] p.constraints with
      | .error e => .error e
      | .ok rows =>
        let program : LinearProgram K := ⟨v, objective, rows⟩
        match program.defect? with
        | some defect => .error (.invalid p.name defect)
        | none => .ok program

/-- Compiles a problem. -/
def compile (p : Problem K) : Except CompileError (Compiled K) :=
  match programOf p with
  | .error e => .error e
  | .ok program =>
    .ok ⟨p.name, p.stringProperty? "name", p.stringProperty? "description", program⟩

end CornerPoint.Compile
