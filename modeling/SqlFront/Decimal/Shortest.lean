import SqlFront.Decimal.Binary

/-!
# The fewest digits that read back

Between a double and its neighbours lie the numbers that round to it. Of the decimals in that
interval one with the fewest digits is chosen, the nearest to the double among those, and the
larger of two that are equally near.
-/

namespace SqlFront.Decimal

/-- The number `digits * 10 ^ exponent`. -/
structure Scaled where
  digits : Nat
  exponent : Int
  deriving DecidableEq, Repr

/-- The numbers that round to one double: the fractions from `low / den` to `high / den` around
    `value / den`, the ends included or not. -/
structure Interval where
  low : Nat
  value : Nat
  high : Nat
  den : Nat
  closed : Bool

/-- The interval around `mantissa * 2 ^ exponent`. An end lies half way to the next double, and
    rounds to the even one of the two. -/
def Interval.around (mantissa : Nat) (exponent : Int) (narrowBelow : Bool) : Interval :=
  let scale := twoTo exponent.toNat
  { low := (4 * mantissa - if narrowBelow then 1 else 2) * scale
    value := 4 * mantissa * scale
    high := (4 * mantissa + 2) * scale
    den := 4 * twoTo (-exponent).toNat
    closed := mantissa % 2 == 0 }

/-- Whether `digits * unit`, a fraction over the same denominator, lies in the interval. -/
def Interval.holds (i : Interval) (scaled : Nat) : Bool :=
  if i.closed then i.low ≤ scaled && scaled ≤ i.high
  else i.low < scaled && scaled < i.high

/-- The interval measured in units of `10 ^ exponent`: numerators over `den`. -/
def Interval.inUnits (i : Interval) (exponent : Int) : Interval :=
  let up := tenTo (-exponent).toNat
  { i with
    low := i.low * up
    value := i.value * up
    high := i.high * up
    den := i.den * tenTo exponent.toNat }

/-- The decimal on the grid of multiples of `10 ^ exponent` that lies in the interval and is
    nearest to its value, if one does. Only the two neighbours of the value need a look. -/
def Interval.onGrid? (i : Interval) (exponent : Int) : Option Scaled :=
  let u := i.inUnits exponent
  let below := u.value / u.den
  let above := below + 1
  let belowHolds := u.holds (below * u.den)
  let aboveHolds := u.holds (above * u.den)
  let aboveNearer := u.den ≤ 2 * (u.value % u.den)
  if aboveHolds && (aboveNearer || !belowHolds) then some ⟨above, exponent⟩
  else if belowHolds then some ⟨below, exponent⟩
  else none

/-- The number of digits before the point: the least `p` with `value / den < 10 ^ p`. -/
def Interval.magnitude (i : Interval) : Int :=
  let guess := floorLog2 i.value i.den * 30103 / 100000
  let fits (p : Int) : Bool := i.value * tenTo (-p).toNat < i.den * tenTo p.toNat
  ((List.range 4).map fun k : Nat => guess - 1 + (k : Int)).find? fits |>.getD (guess + 3)

/-- The decimal with the fewest digits that reads back as `mantissa * 2 ^ exponent`. Seventeen
    digits always do. -/
def shortest (mantissa : Nat) (exponent : Int) (narrowBelow : Bool) : Scaled :=
  let i := Interval.around mantissa exponent narrowBelow
  let p := i.magnitude
  ((List.range 17).findSome? fun n : Nat => i.onGrid? (p - 1 - (n : Int))).getD ⟨mantissa, exponent⟩

end SqlFront.Decimal
