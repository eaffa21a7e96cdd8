import CornerPoint.Source.Token

/-!
# Where a source text stops making sense

A text is rejected at the first token that no correct text has there, or at its end when
something is still missing.
-/

namespace CornerPoint.Source

/-- What could have stood where a token did not fit. -/
inductive Expectation where
  /-- One kind of token only. -/
  | kind (kind : Token.Kind)
  /-- A new problem. -/
  | problem
  /-- A declaration. -/
  | declaration
  /-- An objective. -/
  | objective
  /-- What a property is set to. -/
  | value
  /-- A relation between the two sides of a constraint. -/
  | relation
  /-- The end of a declaration that takes up a line. -/
  | lineEnd
  /-- The beginning of an operand. -/
  | operand
deriving DecidableEq

/-- Why a text is rejected. -/
inductive SyntaxError where
  | unexpected (expected : Expectation) (found : Token.Kind) (span : Span)
  | endOfInput
  | badNumber (text : String)
deriving DecidableEq

/-- The expectation as messages word it. -/
def Expectation.text : Expectation → String
  | .kind k => k.label
  | .problem => "problem"
  | .declaration => "property, vars, objective, or constraints block"
  | .objective => "max or min"
  | .value => "string, number, or identifier"
  | .relation => "<=, >=, or ="
  | .lineEnd => "end of line"
  | .operand => "number, variable, or ("

namespace SyntaxError

/-- The message for a rejected text. -/
def message : SyntaxError → String
  | .unexpected expected found span =>
    "Unexpected token: expected " ++ expected.text ++ ", found " ++ found.label
      ++ " at position " ++ span.text
  | .endOfInput => "Unexpected end of file"
  | .badNumber text => "Invalid number: " ++ text

/-- Where the text is rejected, when that is at a token. -/
def span? : SyntaxError → Option Span
  | .unexpected _ _ span => some span
  | _ => none

end SyntaxError

end CornerPoint.Source
