import CornerPoint.Compile.Catalog
import CornerPoint.Source.Reader

/-!
# Diagnostics for an editor

What is wrong with a source text, and where. A text that cannot be read has one fault. In a
text that can be read every problem is checked: its problems are added to a catalog one at a
time, and a problem whose name is taken has that fault only, any other the first fault that
compiling it meets. Faults are placed at the declaration that they concern where one can be
found, and at the problem otherwise.
-/

namespace CornerPoint.Editor

open Source Compile

/-- A fault and the stretch of the source text to underline for it. -/
structure Diagnostic where
  span : Span
  message : String
deriving DecidableEq

variable {K : Type}

/-- The declaration that a compile error of the problem concerns. -/
def faultSpan (p : Problem K) : CompileError → Span
  | .variableCount .. => (p.vars.map (·.span)).getD p.span
  | .duplicateVariable .. => (p.vars.map (·.span)).getD p.span
  | .multipleObjectives .. => (p.objectives.getLast?.map (·.span)).getD p.span
  | .constantInObjective .. => (p.objectives.getLast?.map (·.span)).getD p.span
  | .invalid _ (.degenerate index _) => (p.constraints[index]?.map (·.span)).getD p.span
  | _ => p.span

/-- The faults of problems in order. Each is added to the catalog by itself, so that the others
are still checked when its name is taken, and it is compiled from the catalog. -/
def problemFaults [Scalar K] (c : Catalog K) : List (Problem K) → List Diagnostic
  | [] => []
  | p :: ps =>
    match c.load ⟨[p]⟩ with
    | (c, some e) => ⟨p.span, e.message⟩ :: problemFaults c ps
    | (c, none) =>
      match c.compile p.name with
      | .ok _ => problemFaults c ps
      | .error e => ⟨faultSpan p e, e.message⟩ :: problemFaults c ps

/-- The faults of a source text whose numbers are read as `K`. -/
def diagnostics (K : Type) [Scalar K] (source : String) : List Diagnostic :=
  match (Program.ofString source : Except SyntaxError (Program K)) with
  | .error e => [⟨e.span?.getD ⟨0, source.utf8ByteSize⟩, e.message⟩]
  | .ok program => problemFaults .empty program.problems

end CornerPoint.Editor
