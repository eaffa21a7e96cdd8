import CornerPoint.Number.Double

/-!
# The shortest decimal that reads back

Among the decimals that round to a given double, the one with the fewest digits is
written; of several with equally few digits, the one nearest to the double, and of two
equally near ones the one that a `Tie` names. The search is exact: for one digit, two digits
and so on it tests the two neighbours of the double on the grid of decimals with that many
digits.
-/

namespace CornerPoint.Double

/-- Which of two equally near decimals is taken. -/
inductive Tie where
  /-- The larger one. -/
  | up
  /-- The one whose last digit is even. -/
  | even

/-- A fraction of naturals, the denominator positive wherever it is built here. -/
structure Ratio where
  num : Nat
  den : Nat

/-- The least `k` with `r < 10 ^ k`, for a positive `r`: the number of digits before the
point, or minus the number of zeros right behind it. -/
def Ratio.magnitude (r : Ratio) : Int :=
  if r.den ≤ r.num then (Nat.toDigits 10 (r.num / r.den)).length
  else 1 - (Nat.toDigits 10 ((r.den - 1) / r.num)).length

/-- The reals that round to one double, in quarters of a unit in the last place: `value`
lies between the ends `low` and `high`, which belong to the interval when `closed`. -/
structure Interval where
  low : Nat
  value : Nat
  high : Nat
  closed : Bool

/-- The rounding interval of `significand * 2 ^ exponent`. Below a power of two the
neighbour is only half as far away, except at the bottom of the range. -/
def interval (significand : Nat) (exponent : Int) : Interval where
  low := 4 * significand - if significand = Nat.pow 2 52 ∧ -1074 < exponent then 1 else 2
  value := 4 * significand
  high := 4 * significand + 2
  closed := significand % 2 = 0

/-- The point of the grid with spacing `step` that `shortest` takes, in multiples of
`step`, when one of the value's neighbours on the grid lies in the interval. The spacing is in the
interval's units. -/
def Interval.gridPoint? (tie : Tie) (i : Interval) (step : Ratio) : Option Nat :=
  let inside (n : Nat) : Bool :=
    let point := n * step.num
    if i.closed then i.low * step.den ≤ point && point ≤ i.high * step.den
    else i.low * step.den < point && point < i.high * step.den
  let below := i.value * step.den / step.num
  let above := below + 1
  let toBelow := i.value * step.den - below * step.num
  let toAbove := above * step.num - i.value * step.den
  let preferAbove := toAbove < toBelow || (toAbove == toBelow &&
    match tie with
    | .up => true
    | .even => above % 2 == 0)
  if inside above && (preferAbove || !inside below) then some above
  else if inside below then some below
  else none

/-- The shortest decimal that rounds to `significand * 2 ^ exponent`, without zeros at its
end. Seventeen digits always suffice. -/
def shortest (tie : Tie) (significand : Nat) (exponent : Int) : Decimal :=
  if significand = 0 then ⟨0, 0⟩
  else
    let i := interval significand exponent
    -- A quarter of a unit in the last place is `2 ^ (exponent - 2)`.
    let unit : Ratio := ⟨Nat.pow 2 (exponent - 2).toNat, Nat.pow 2 (2 - exponent).toNat⟩
    let k := (Ratio.mk (i.value * unit.num) unit.den).magnitude
    let grid (digits : Nat) : Option Decimal :=
      let e := k - digits
      let step : Ratio := ⟨Nat.pow 10 e.toNat * unit.den, Nat.pow 10 (-e).toNat * unit.num⟩
      (i.gridPoint? tie step).map (Decimal.trim · e)
    ((List.range 17).findSome? fun n => grid (n + 1)).getD ⟨0, 0⟩

end CornerPoint.Double
