import CornerPoint.Number.Style

/-!
# What the geometry computes with

Everything from points to compiled programs is parametric in the number type. A `Scalar`
is such a type: the arithmetic and comparisons that the formulas use, a way in for decimals
and literals and a way out for texts. `Float` is the type that programs are run with; `Rat` is
the type that they are reasoned about with, where every operation is exact.
-/

namespace CornerPoint

/-- Numbers that linear programs can be written with. No laws are asked for, because
doubles have few. -/
class Scalar (K : Type) extends Zero K, One K, NatCast K, Add K, Sub K, Mul K, Div K, Neg K,
    LT K, LE K, BEq K where
  /-- Whether one number is less than another is decidable. -/
  decLt : DecidableLT K
  /-- Whether one number is at most another is decidable. -/
  decLe : DecidableLE K
  /-- The magnitude of a number. -/
  abs : K → K
  /-- False for infinities and for not-a-number. -/
  isFinite : K → Bool
  /-- The number that a decimal denotes, rounded if need be. -/
  ofDecimal : Decimal → K
  /-- The number that a literal denotes, rounded if need be; not every text is a literal. -/
  ofText? : String → Option K
  /-- How messages and descriptions write the number. -/
  text : K → String

attribute [reducible, instance] Scalar.decLt Scalar.decLe

instance : Scalar Float where
  zero := 0
  one := 1
  natCast := Float.ofNat
  decLt := inferInstance
  decLe := inferInstance
  abs := Float.abs
  isFinite := Float.isFinite
  ofDecimal := Double.ofDecimal
  ofText? := Double.ofString?
  text := Double.text

/-! ## Exact numbers -/

/-- The least number of decimal places that writes `1 / den` exactly, if some number does. -/
def Decimal.places? (den : Nat) : Option Nat :=
  (List.range (den.log2 + 1)).find? fun n => Nat.pow 10 n % den == 0

/-- A fraction as a decimal when it is one, and with a slash otherwise. -/
def Decimal.ratText (q : Rat) : String :=
  let magnitude := match Decimal.places? q.den with
    | some n => Decimal.positional (q.num.natAbs * Nat.pow 10 n / q.den) n
    | none => Nat.toDigits 10 q.num.natAbs ++ '/' :: Nat.toDigits 10 q.den
  Double.signed (q.num < 0) magnitude

instance : Scalar Rat where
  zero := 0
  one := 1
  decLt := inferInstance
  decLe := inferInstance
  abs q := if q < 0 then -q else q
  isFinite _ := true
  ofDecimal := Decimal.toRat
  ofText? := Decimal.signed? fun cs => (Decimal.ofChars? cs).map Decimal.toRat
  text := Decimal.ratText

/-- The tolerance used when none is given: one thousandth. -/
def Scalar.thousandth {K : Type} [Scalar K] : K := Scalar.ofDecimal ⟨1, -3⟩

end CornerPoint
