import CornerPoint.Number.Shortest

/-!
# How numbers are written

Three ways of writing a double, all exact:

* `Double.text`: the shortest digits that read back, never with an exponent. Messages and
  descriptions use it.
* `Double.fixed`: a fixed number of places, rounded from the exact value, a half going to
  the even neighbour. Reports use it.
* `Double.styled`: the shortest digits, with an exponent for very small and very large
  numbers. Trees and JSON documents use it, each with a `Style` of its own.
-/

namespace CornerPoint

/-- When a number is written with an exponent, and how that exponent looks. -/
structure Style where
  /-- Which of two equally near shortest decimals is written. -/
  tie : Double.Tie
  /-- Smaller numbers than `10 ^ (least - 1)` get an exponent. -/
  least : Int
  /-- Numbers from `10 ^ most` on get an exponent. -/
  most : Int
  /-- Whether a positive exponent carries a sign. -/
  plus : Bool

namespace Style

/-- Exponents below `1e-4` and from `1e16` on, without a plus; ties go up. -/
def tree : Style := ⟨.up, -3, 16, false⟩

/-- Exponents below `1e-5` and from `1e16` on, with a plus; ties go to the even digit. -/
def json : Style := ⟨.even, -4, 16, true⟩

/-- Writes a decimal that has no zeros at its end. A number without decimals gets `.0`. -/
def write (s : Style) (d : Decimal) : List Char :=
  let ds := Nat.toDigits 10 d.mantissa
  let point : Int := ds.length + d.exponent
  if d.mantissa = 0 then ['0', '.', '0']
  else if s.least ≤ point && point ≤ s.most then
    d.toChars ++ if 0 ≤ d.exponent then ['.', '0'] else []
  else
    let e := point - 1
    let mark := if e < 0 then ['e', '-'] else if s.plus then ['e', '+'] else ['e']
    Decimal.positional d.mantissa (ds.length - 1) ++ mark ++ Nat.toDigits 10 e.natAbs

end Style

namespace Double

/-- Puts a minus in front of a negative number; negative zero is one. -/
def signed (negative : Bool) (magnitude : List Char) : String :=
  String.ofList (if negative then '-' :: magnitude else magnitude)

/-- Writes a number whose finite magnitudes `write` takes care of. -/
def writeWith (write : Nat → Int → List Char) (x : Float) : String :=
  match ofFloat x with
  | .nan => "NaN"
  | .infinite negative => signed negative ['i', 'n', 'f']
  | .finite negative significand exponent => signed negative (write significand exponent)

/-- The shortest digits that read back, without an exponent. -/
def text (x : Float) : String :=
  writeWith (fun m e => (shortest .up m e).toChars) x

/-- The shortest digits that read back, in the given style. -/
def styled (s : Style) (x : Float) : String :=
  writeWith (fun m e => s.write (shortest s.tie m e)) x

/-- The quotient rounded to the nearest natural, a half to the even one. -/
def roundHalfEven (num den : Nat) : Nat :=
  let q := num / den
  let r := 2 * (num % den)
  if r < den || (r == den && q % 2 == 0) then q else q + 1

/-- A number with exactly `places` decimals. -/
def fixed (places : Nat) (x : Float) : String :=
  writeWith (fun m e =>
    Decimal.positional
      (roundHalfEven (m * Nat.pow 2 e.toNat * Nat.pow 10 places) (Nat.pow 2 (-e).toNat)) places) x

end Double

end CornerPoint
