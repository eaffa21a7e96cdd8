import CornerPoint.Program.Objective
import CornerPoint.Source.Expr

/-!
# Programs as they are written

A source text is a list of problems. A problem has properties, at most one list of variable
names that counts, objectives and constraints; each of these declarations knows where it
stands. Nothing about meaning is checked here: a problem may have two objectives or none.
-/

namespace CornerPoint.Source

/-- What a property may be set to. -/
inductive Value (K : Type) where
  | string (text : String)
  | number (value : K)
  | word (text : String)

/-- A named value, such as a display name. -/
structure Property (K : Type) where
  span : Span
  name : String
  value : Value K

/-- A list of variable names. -/
structure VariableList where
  span : Span
  names : List String

/-- A declared objective. -/
structure ObjectiveLine (K : Type) where
  span : Span
  sense : Sense
  expr : Expr K

/-- A declared constraint; both sides may hold variables. -/
structure ConstraintLine (K : Type) where
  span : Span
  label : Option String
  lhs : Expr K
  relation : Relation
  rhs : Expr K

/-- A problem: all its declarations, each kind in the order in which it was written. Of
several lists of variables the last one is kept. -/
structure Problem (K : Type) where
  span : Span
  name : String
  properties : List (Property K)
  vars : Option VariableList
  objectives : List (ObjectiveLine K)
  constraints : List (ConstraintLine K)

/-- A source text. -/
structure Program (K : Type) where
  problems : List (Problem K)

/-- The text of the first property with the given name, if that property is a string. -/
def Problem.stringProperty? {K : Type} (p : Problem K) (name : String) : Option String :=
  match p.properties.find? (·.name == name) with
  | some ⟨_, _, .string text⟩ => some text
  | _ => none

end CornerPoint.Source
