import CornerPoint.Source.Expr
import CornerPoint.Source.SyntaxError

/-!
# Reading an expression, one token at a time

An `ExprReader` is what has been read of an expression. It takes one token after another and
never looks ahead: each token leads to a new reader, ends the expression in front of it, or is
an error. What stands outside an open parenthesis waits on a stack.

Products and quotients bind tighter than sums and differences, both group to the left, and a
sign binds tighter than either. A number right in front of a name or a parenthesis multiplies
it, and this binds tightest of all. Comments may stand before operands and operators, line
ends as well inside parentheses; neither may separate a number from what it multiplies.
-/

namespace CornerPoint.Source

/-- An operand that awaits an operator's other operand, with that operator. -/
abbrev Awaiting (K : Type) := Option (Expr K × Operator)

/-- Applies a waiting operator, if there is one. -/
def Awaiting.apply {K : Type} : Awaiting K → Expr K → Expr K
  | none, e => e
  | some (left, op), e => .binary left op e

/-- What stands in front of an operand, back to the last open parenthesis. -/
structure Pending (K : Type) where
  /-- The terms so far, with the operator that adds or subtracts the next one. -/
  sum : Awaiting K
  /-- The factors of the current term so far, with the operator that applies the next one. -/
  product : Awaiting K
  /-- The number of minus signs right in front of the operand. -/
  negations : Nat

namespace Pending

variable {K : Type}

/-- Nothing stands in front of the operand. -/
def start : Pending K := ⟨none, none, 0⟩

/-- `e` behind `n` minus signs. -/
def negate : Nat → Expr K → Expr K
  | 0, e => e
  | n + 1, e => .neg (negate n e)

/-- The current term, once the operand is `e`. -/
def term (p : Pending K) (e : Expr K) : Expr K := p.product.apply (negate p.negations e)

end Pending

/-- What stands outside an open parenthesis: perhaps a number that multiplies it, and what
stands in front of them. -/
structure Outer (K : Type) where
  multiplier : Option K
  pending : Pending K

/-- What has been read of an expression. -/
inductive ExprReader (K : Type) where
  /-- An operand must follow. -/
  | operand (pending : Pending K) (outer : List (Outer K))
  /-- A number has just been read, which a name or a parenthesis would multiply. -/
  | number (value : K) (pending : Pending K) (outer : List (Outer K))
  /-- A term is complete as far as it goes: an operator may follow, or the end. -/
  | operator (sum : Awaiting K) (term : Expr K) (outer : List (Outer K))

/-- What a token leads to. -/
inductive ExprStep (K : Type) where
  /-- The token belongs to the expression. -/
  | more (reader : ExprReader K)
  /-- The expression ended in front of the token. -/
  | ended (e : Expr K)
  /-- No expression goes on with the token. -/
  | wrong (expected : Expectation)
  /-- The token is a number without a value. -/
  | badNumber

namespace ExprReader

variable {K : Type}

/-- Nothing has been read. -/
def start : ExprReader K := .operand .start []

/-- The operand `e` has been read behind `pending`. -/
def afterOperand (pending : Pending K) (e : Expr K) (outer : List (Outer K)) : ExprReader K :=
  .operator pending.sum (pending.term e) outer

/-- The expression `e` in parentheses, and the number that multiplies it. -/
def enclosed (multiplier : Option K) (e : Expr K) : Expr K :=
  match multiplier with
  | none => .paren e
  | some n => .binary (.number n) .mul (.paren e)

/-- The token `t` where an operand must follow. -/
def stepOperand [Scalar K] (pending : Pending K) (outer : List (Outer K)) (t : Token) :
    ExprStep K :=
  match t.kind with
  | .comment => .more (.operand pending outer)
  | .newline => if outer.isEmpty then .wrong .operand else .more (.operand pending outer)
  | .minus => .more (.operand { pending with negations := pending.negations + 1 } outer)
  | .plus => .more (.operand pending outer)
  | .number =>
    match Scalar.ofText? t.text with
    | some value => .more (.number value pending outer)
    | none => .badNumber
  | .name => .more (afterOperand pending (.var t.span t.text) outer)
  | .openParen => .more (.operand .start (⟨none, pending⟩ :: outer))
  | _ => .wrong .operand

/-- The token `t` where an operator may follow. -/
def stepOperator (sum : Awaiting K) (term : Expr K) (outer : List (Outer K)) (t : Token) :
    ExprStep K :=
  match t.kind with
  | .comment => .more (.operator sum term outer)
  | .star => .more (.operand ⟨sum, some (term, .mul), 0⟩ outer)
  | .slash => .more (.operand ⟨sum, some (term, .div), 0⟩ outer)
  | .plus => .more (.operand ⟨some (sum.apply term, .add), none, 0⟩ outer)
  | .minus => .more (.operand ⟨some (sum.apply term, .sub), none, 0⟩ outer)
  | kind =>
    match outer with
    | [] => .ended (sum.apply term)
    | o :: outer =>
      if kind = .closeParen then
        .more (afterOperand o.pending (enclosed o.multiplier (sum.apply term)) outer)
      else if kind = .newline then .more (.operator sum term (o :: outer))
      else .wrong (.kind .closeParen)

/-- The token `t` after what has been read. -/
def step [Scalar K] (t : Token) : ExprReader K → ExprStep K
  | .operand pending outer => stepOperand pending outer t
  | .number value pending outer =>
    match t.kind with
    | .name =>
      .more (afterOperand pending (.binary (.number value) .mul (.var t.span t.text)) outer)
    | .openParen => .more (.operand .start (⟨some value, pending⟩ :: outer))
    | _ => stepOperator pending.sum (pending.term (.number value)) outer t
  | .operator sum term outer => stepOperator sum term outer t

end ExprReader

end CornerPoint.Source
