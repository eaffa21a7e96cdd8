/-!
# Decimal numerals

A numeral such as `2.50e-3` stands for a natural number times a power of ten. This
file reads numerals (`Decimal.ofChars?`) and writes such a number without an exponent
(`Decimal.positional`), which every other way of writing numbers builds on.
-/

namespace CornerPoint

/-- The number `mantissa * 10 ^ exponent`. -/
structure Decimal where
  mantissa : Nat
  exponent : Int
deriving DecidableEq

namespace Decimal

/-! ## Reading -/

/-- The value of a run of digits, the most significant one first. -/
def ofDigits (ds : List Char) : Nat :=
  ds.foldl (fun n d => 10 * n + (d.toNat - '0'.toNat)) 0

/-- The value of a text that is one or more digits and nothing else. -/
def digits? (cs : List Char) : Option Nat :=
  if !cs.isEmpty && cs.all Char.isDigit then some (ofDigits cs) else none

/-- The exponent that a numeral ends with: none at all counts as zero, otherwise `e` or
`E`, an optional sign and at least one digit. -/
def exponent? : List Char → Option Int
  | [] => some 0
  | e :: cs =>
    if e == 'e' || e == 'E' then
      match cs with
      | '-' :: ds => (digits? ds).map fun n => -(n : Int)
      | '+' :: ds => (digits? ds).map fun n => (n : Int)
      | ds => (digits? ds).map fun n => (n : Int)
    else none

/-- The digits behind a decimal point, if one stands at the front, and what follows them. -/
def fraction : List Char → List Char × List Char
  | '.' :: cs => (cs.takeWhile Char.isDigit, cs.dropWhile Char.isDigit)
  | cs => ([], cs)

/-- Reads an unsigned numeral: digits with an optional point among, before or behind them,
and an optional exponent. A point alone is no numeral. -/
def ofChars? (cs : List Char) : Option Decimal :=
  let whole := cs.takeWhile Char.isDigit
  let (decimals, rest) := fraction (cs.dropWhile Char.isDigit)
  if whole.isEmpty && decimals.isEmpty then none
  else (exponent? rest).map fun e => ⟨ofDigits (whole ++ decimals), e - decimals.length⟩

/-- Reads an optional sign, and behind it what `magnitude?` reads. -/
def signed? {K : Type} [Neg K] (magnitude? : List Char → Option K) (s : String) : Option K :=
  match s.toList with
  | '-' :: cs => (magnitude? cs).map (- ·)
  | '+' :: cs => magnitude? cs
  | cs => magnitude? cs

/-! ## Writing -/

/-- The digits of `n`, with zeros in front up to a width. -/
def padded (n width : Nat) : List Char :=
  let ds := Nat.toDigits 10 n
  List.replicate (width - ds.length) '0' ++ ds

/-- `n` with a point before its last `places` digits and at least one digit before the
point: `positional 25 3` is `0.025`. Without places there is no point. -/
def positional (n places : Nat) : List Char :=
  if places = 0 then Nat.toDigits 10 n
  else
    let ds := padded n (places + 1)
    ds.take (ds.length - places) ++ '.' :: ds.drop (ds.length - places)

/-- A decimal in full, without an exponent. -/
def toChars (d : Decimal) : List Char :=
  positional (d.mantissa * Nat.pow 10 d.exponent.toNat) (-d.exponent).toNat

/-- Moves the zeros at the end of the mantissa into the exponent. -/
def trim (mantissa : Nat) (exponent : Int) : Decimal :=
  if h : mantissa ≠ 0 ∧ mantissa % 10 = 0 then trim (mantissa / 10) (exponent + 1)
  else ⟨mantissa, exponent⟩
termination_by mantissa
decreasing_by omega

/-- The rational number that a decimal stands for. -/
def toRat (d : Decimal) : Rat :=
  mkRat (d.mantissa * Nat.pow 10 d.exponent.toNat) (Nat.pow 10 (-d.exponent).toNat)

end Decimal

end CornerPoint
