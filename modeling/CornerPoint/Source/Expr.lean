import CornerPoint.Number.Scalar
import CornerPoint.Source.Span

/-!
# Expressions

The arithmetic expressions of the problem language, as trees. Parentheses are kept, so that
a tree is written as its author wrote it, up to blanks and the products that may be left
implicit.
-/

namespace CornerPoint.Source

/-- The four operators. -/
inductive Operator where
  | add
  | sub
  | mul
  | div
deriving DecidableEq

namespace Operator

/-- The operator as it is written. -/
def symbol : Operator → String
  | .add => "+"
  | .sub => "-"
  | .mul => "*"
  | .div => "/"

/-- The operator as trees and documents name it. -/
def label : Operator → String
  | .add => "Add"
  | .sub => "Sub"
  | .mul => "Mul"
  | .div => "Div"

end Operator

/-- An expression. A variable knows where it stands. -/
inductive Expr (K : Type) where
  | number (value : K)
  | var (span : Span) (name : String)
  | neg (e : Expr K)
  | paren (e : Expr K)
  | binary (left : Expr K) (op : Operator) (right : Expr K)

namespace Expr

/-- The expression as it is written, with blanks around operators and every product
explicit. -/
def text {K : Type} [Scalar K] : Expr K → String
  | number value => Scalar.text value
  | .var _ name => name
  | neg e => "-" ++ e.text
  | paren e => "(" ++ e.text ++ ")"
  | binary left op right => left.text ++ " " ++ op.symbol ++ " " ++ right.text

end Expr

end CornerPoint.Source
