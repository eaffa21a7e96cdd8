import CornerPoint.Plane.Constraint
import CornerPoint.Source.Expr

/-!
# Linear forms of expressions

An expression over two variables `v` is lowered to a linear form `a * x + b * y + c` by
carrying out its operators on such forms. A product needs a constant factor and a quotient a
constant divisor that is not zero. Whether a form is constant is asked of the form and not of
the expression, so `x - x` is as constant as `0`.
-/

namespace CornerPoint.Compile

open Source (Expr)

/-- The form `a * x + b * y + c`. -/
@[ext] structure Linear (K : Type) where
  a : K
  b : K
  c : K

namespace Linear

variable {K : Type} [Scalar K]

/-- A form without variables. -/
def constant (c : K) : Linear K := ⟨0, 0, c⟩

/-- The first variable alone. -/
def x : Linear K := ⟨1, 0, 0⟩

/-- The second variable alone. -/
def y : Linear K := ⟨0, 1, 0⟩

/-- No variable occurs in the form. -/
def isConstant (l : Linear K) : Bool := l.a == 0 && l.b == 0

/-- All three numbers are finite. -/
def isFinite (l : Linear K) : Bool :=
  Scalar.isFinite l.a && Scalar.isFinite l.b && Scalar.isFinite l.c

/-- The form times a number. -/
def scale (l : Linear K) (k : K) : Linear K := ⟨l.a * k, l.b * k, l.c * k⟩

/-- The sum of two forms. -/
def add (l r : Linear K) : Linear K := ⟨l.a + r.a, l.b + r.b, l.c + r.c⟩

/-- The difference of two forms. -/
def sub (l r : Linear K) : Linear K := l.add (r.scale (-1))

end Linear

/-- Why an expression has no linear form. -/
inductive ExprError where
  | unknownVariable (name : String)
  /-- The product or quotient that is to blame, as it is written. -/
  | nonLinear (text : String)
  | divisionByZero
deriving DecidableEq

variable {K : Type} [Scalar K]

/-- The linear form of an expression over the variables `v`. Operands are lowered from left
to right, and the first failure counts. -/
def lower (v : Variables) : Expr K → Except ExprError (Linear K)
  | .number n => .ok (.constant n)
  | .var _ name =>
    if name = v.x then .ok .x
    else if name = v.y then .ok .y
    else .error (.unknownVariable name)
  | .neg e =>
    match lower v e with
    | .ok l => .ok (l.scale (-1))
    | .error e => .error e
  | .paren e => lower v e
  | .binary left op right =>
    match lower v left, lower v right with
    | .error e, _ => .error e
    | _, .error e => .error e
    | .ok l, .ok r =>
      match op with
      | .add => .ok (l.add r)
      | .sub => .ok (l.sub r)
      | .mul =>
        if l.isConstant then .ok (r.scale l.c)
        else if r.isConstant then .ok (l.scale r.c)
        else .error (.nonLinear (Expr.binary left op right).text)
      | .div =>
        if !r.isConstant then .error (.nonLinear (Expr.binary left op right).text)
        else if r.c == 0 then .error .divisionByZero
        else .ok (l.scale (1 / r.c))

end CornerPoint.Compile
