import CornerPoint.Document.Json
import CornerPoint.Document.Outline
import CornerPoint.Source.Program

/-!
# Source programs as documents and outlines

Both show everything that was read, in the order of the declarations' parts: spans, names,
values and expressions.
-/

namespace CornerPoint.Source

/-- The sense as trees and documents of source programs name it. -/
def senseLabel : Sense → String
  | .maximize => "Max"
  | .minimize => "Min"

/-! ## Documents -/

/-- A span by its ends. -/
def Span.toJson (s : Span) : Json :=
  .object [("start", .natural s.start), ("end", .natural s.stop)]

/-- An expression, each node under the name of its kind. -/
def Expr.toJson : Expr Float → Json
  | .number value => .object [("Number", .number value)]
  | .var span name =>
    .object [("Variable", .object [("span", span.toJson), ("name", .string name)])]
  | .neg e => .object [("Neg", e.toJson)]
  | .paren e => .object [("Paren", e.toJson)]
  | .binary left op right =>
    .object [("BinaryOp",
      .object [("left", left.toJson), ("op", .string op.label), ("right", right.toJson)])]

/-- A value under the name of its kind. -/
def Value.toJson : Value Float → Json
  | .string text => .object [("String", .string text)]
  | .number value => .object [("Number", .number value)]
  | .word text => .object [("Ident", .string text)]

/-- A property. -/
def Property.toJson (p : Property Float) : Json :=
  .object [("span", p.span.toJson), ("name", .string p.name), ("value", p.value.toJson)]

/-- A list of variables. -/
def VariableList.toJson (v : VariableList) : Json :=
  .object [("span", v.span.toJson), ("names", .ofList .string v.names)]

/-- An objective with its expression. -/
def ObjectiveLine.toJson (o : ObjectiveLine Float) : Json :=
  .object [("span", o.span.toJson), ("sense", .string (senseLabel o.sense)),
    ("expr", o.expr.toJson)]

/-- A constraint with both its expressions. -/
def ConstraintLine.toJson (c : ConstraintLine Float) : Json :=
  .object [("span", c.span.toJson), ("label", .ofOption .string c.label), ("lhs", c.lhs.toJson),
    ("relation", .string c.relation.label), ("rhs", c.rhs.toJson)]

/-- A problem with all its declarations. -/
def Problem.toJson (p : Problem Float) : Json :=
  .object [("span", p.span.toJson), ("name", .string p.name),
    ("properties", .ofList Property.toJson p.properties),
    ("vars", .ofOption VariableList.toJson p.vars),
    ("objectives", .ofList ObjectiveLine.toJson p.objectives),
    ("constraints", .ofList ConstraintLine.toJson p.constraints)]

/-- The program as a document. -/
def Program.toJson (p : Program Float) : Json :=
  .object [("problems", .ofList Problem.toJson p.problems)]

/-! ## Outlines -/

/-- A number as outlines show it. -/
def numberOutline (x : Float) : Outline := .leaf (Double.styled .tree x)

/-- A text as outlines show it. -/
def stringOutline (s : String) : Outline := .leaf (Text.quote s)

/-- A span by its ends. -/
def Span.outline (s : Span) : Outline :=
  .record "Span" [("start", .leaf (toString s.start)), ("end", .leaf (toString s.stop))]

/-- An expression, each node under the name of its kind. -/
def Expr.outline : Expr Float → Outline
  | .number value => .wrapped "Number" (numberOutline value)
  | .var span name =>
    .record "Variable" [("span", span.outline), ("name", stringOutline name)]
  | .neg e => .wrapped "Neg" e.outline
  | .paren e => .wrapped "Paren" e.outline
  | .binary left op right =>
    .record "BinaryOp"
      [("left", left.outline), ("op", .leaf op.label), ("right", right.outline)]

/-- A value under the name of its kind. -/
def Value.outline : Value Float → Outline
  | .string text => .wrapped "String" (stringOutline text)
  | .number value => .wrapped "Number" (numberOutline value)
  | .word text => .wrapped "Ident" (stringOutline text)

/-- A property. -/
def Property.outline (p : Property Float) : Outline :=
  .record "Property"
    [("span", p.span.outline), ("name", stringOutline p.name), ("value", p.value.outline)]

/-- A list of variables. -/
def VariableList.outline (v : VariableList) : Outline :=
  .record "VarList" [("span", v.span.outline), ("names", .list (v.names.map stringOutline))]

/-- An objective with its expression. -/
def ObjectiveLine.outline (o : ObjectiveLine Float) : Outline :=
  .record "ObjectiveDecl"
    [("span", o.span.outline), ("sense", .leaf (senseLabel o.sense)), ("expr", o.expr.outline)]

/-- A constraint with both its expressions. -/
def ConstraintLine.outline (c : ConstraintLine Float) : Outline :=
  .record "ConstraintDecl"
    [("span", c.span.outline), ("label", .ofOption stringOutline c.label),
      ("lhs", c.lhs.outline), ("relation", .leaf c.relation.label), ("rhs", c.rhs.outline)]

/-- A problem with all its declarations. -/
def Problem.outline (p : Problem Float) : Outline :=
  .record "Problem"
    [("span", p.span.outline), ("name", stringOutline p.name),
      ("properties", .list (p.properties.map Property.outline)),
      ("vars", .ofOption VariableList.outline p.vars),
      ("objectives", .list (p.objectives.map ObjectiveLine.outline)),
      ("constraints", .list (p.constraints.map ConstraintLine.outline))]

/-- The program as an outline. -/
def Program.outline (p : Program Float) : Outline :=
  .record "Program" [("problems", .list (p.problems.map Problem.outline))]

end CornerPoint.Source
