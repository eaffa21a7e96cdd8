import CornerPoint.Source.Span

/-!
# Tokens

The pieces that a source text is cut into: keywords, names, numerals, quoted strings,
operators, brackets, line ends, comments, and whatever fits nowhere.
-/

namespace CornerPoint.Source

/-- What kind of piece a token is. -/
inductive Token.Kind where
  | problem
  | maximize
  | minimize
  | vars
  | constraints
  | name
  | number
  | string
  | plus
  | minus
  | star
  | slash
  | le
  | ge
  | eq
  | colon
  | comma
  | openBrace
  | closeBrace
  | openParen
  | closeParen
  | newline
  | comment
  | endOfInput
  | unknown
deriving DecidableEq

/-- A piece of the source text and where it stands. -/
structure Token where
  kind : Token.Kind
  span : Span
  text : String
deriving DecidableEq

namespace Token

/-- The word for a kind of token in error messages and token lists. -/
def Kind.label : Kind → String
  | .problem => "Problem"
  | .maximize => "Max"
  | .minimize => "Min"
  | .vars => "Vars"
  | .constraints => "Constraints"
  | .name => "Ident"
  | .number => "Number"
  | .string => "String"
  | .plus => "Plus"
  | .minus => "Minus"
  | .star => "Star"
  | .slash => "Slash"
  | .le => "Le"
  | .ge => "Ge"
  | .eq => "Eq"
  | .colon => "Colon"
  | .comma => "Comma"
  | .openBrace => "LBrace"
  | .closeBrace => "RBrace"
  | .openParen => "LParen"
  | .closeParen => "RParen"
  | .newline => "Newline"
  | .comment => "Comment"
  | .endOfInput => "Eof"
  | .unknown => "Error"

/-- The token behind the last one: empty, at the end of the text. -/
def endAt (pos : Nat) : Token := ⟨.endOfInput, ⟨pos, pos⟩, ""⟩

end Token

end CornerPoint.Source
