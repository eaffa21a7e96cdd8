import CornerPoint.Number.Decimal

/-!
# Double-precision numbers, taken apart

A finite double is a natural number times a power of two with a sign. Everything that is
written about a double is computed from these parts in exact arithmetic, and reading a
decimal rounds the exact value once.
-/

namespace CornerPoint

/-- The parts of a double: `± significand * 2 ^ exponent` when it is finite. -/
inductive Double where
  | nan
  | infinite (negative : Bool)
  | finite (negative : Bool) (significand : Nat) (exponent : Int)

namespace Double

/-- Takes a double apart. Below the smallest normal exponent the leading bit is not implied. -/
def ofFloat (x : Float) : Double :=
  let bits := x.toBits.toNat
  let negative := bits / Nat.pow 2 63 == 1
  let field : Nat := bits / Nat.pow 2 52 % Nat.pow 2 11
  let tail : Nat := bits % Nat.pow 2 52
  if field = 2047 then
    if tail = 0 then .infinite negative else .nan
  else if field = 0 then .finite negative tail (-1074)
  else .finite negative (Nat.pow 2 52 + tail) (field - 1075)

/-- The double nearest to a decimal, ties to the even significand. Decimals beyond
`10 ^ 400` or below `10 ^ -400` are decided by their size alone, so that an absurd
exponent costs nothing. -/
def ofDecimal (d : Decimal) : Float :=
  if d.mantissa = 0 then 0
  else if 400 < d.exponent then 1 / 0
  else if d.exponent + (d.mantissa.log2 / 3 + 1 : Nat) < -400 then 0
  else Float.ofScientific d.mantissa (d.exponent < 0) d.exponent.natAbs

/-- Reads an unsigned numeral, or a name of infinity or of not-a-number in any case. -/
def ofChars? (cs : List Char) : Option Float :=
  match String.ofList (cs.map Char.toLower) with
  | "inf" | "infinity" => some (1 / 0)
  | "nan" => some (0 / 0)
  | _ => (Decimal.ofChars? cs).map ofDecimal

/-- Reads a signed numeral, or a name of infinity or of not-a-number in any case. -/
def ofString? (s : String) : Option Float := Decimal.signed? ofChars? s

end Double

end CornerPoint
