import CornerPoint.Source.Scanner

/-!
# Highlighting for an editor

Every token but line ends and the end of the text has a role that decides its colour.
-/

namespace CornerPoint.Editor

open Source

/-- What a token is to its reader. -/
inductive Role where
  | keyword
  | name
  | number
  | string
  | comment
  | operator
  | delimiter
  | whitespace
  | error
deriving DecidableEq

/-- The name of a role. -/
def Role.label : Role → String
  | .keyword => "keyword"
  | .name => "variable"
  | .number => "number"
  | .string => "string"
  | .comment => "comment"
  | .operator => "operator"
  | .delimiter => "delimiter"
  | .whitespace => "whitespace"
  | .error => "error"

/-- The role of a kind of token. -/
def roleOf : Token.Kind → Role
  | .problem | .vars | .constraints | .maximize | .minimize => .keyword
  | .name => .name
  | .number => .number
  | .string => .string
  | .comment => .comment
  | .plus | .minus | .star | .slash | .le | .ge | .eq => .operator
  | .colon | .comma | .openBrace | .closeBrace | .openParen | .closeParen => .delimiter
  | .newline => .whitespace
  | .unknown | .endOfInput => .error

/-- The spans of a text that are to be coloured, with their roles. -/
def highlights (source : String) : List (Span × Role) :=
  ((tokenize source).filter fun t => t.kind ≠ .newline && t.kind ≠ .endOfInput).map
    fun t => (t.span, roleOf t.kind)

end CornerPoint.Editor
