/-!
# Shortest decimals

A finite binary64 number is `mantissa * 2 ^ exponent`, and the reals that are read as
that number form an interval around it: half the way to either neighbour, its ends
included when the mantissa is even (`Binary`). `Binary.shortest` finds the decimal
`digits * 10 ^ exponent` with the fewest digits inside that interval.

Of all decimals with the last place `10 ^ k` only the two next to the number matter: if
any of them lies in the interval, one of those two does. The search goes from the power
of ten above the number to ever lower places; of two hits the nearer one wins, and of
two equally near ones the larger. Seventeen digits always hit.
-/

namespace OpticScript.Decimal

/-- The decimal `digits * 10 ^ exponent`. -/
structure Scaled where
  digits : Nat
  exponent : Int
  deriving DecidableEq

/-- The magnitude of a finite binary64 number, `mantissa * 2 ^ exponent`. -/
structure Binary where
  mantissa : Nat
  exponent : Int
  /-- Whether the neighbour below is only half as far away as the one above. -/
  narrowBelow : Bool
  deriving DecidableEq

/-- The magnitude that the 64 bits of a finite number encode. -/
def Binary.ofBits (bits : Nat) : Binary :=
  let fraction : Nat := bits % Nat.pow 2 52
  let scale : Nat := bits / Nat.pow 2 52 % Nat.pow 2 11
  if scale = 0 then
    { mantissa := fraction, exponent := -1074, narrowBelow := false }
  else
    { mantissa := Nat.pow 2 52 + fraction, exponent := (scale : Int) - 1075,
      narrowBelow := fraction = 0 && 1 < scale }

/-- The whole number of this magnitude, when there is no fraction. -/
def Binary.whole? (b : Binary) : Option Nat :=
  if 0 ≤ b.exponent then
    some (b.mantissa * Nat.pow 2 b.exponent.toNat)
  else if b.mantissa % Nat.pow 2 (-b.exponent).toNat = 0 then
    some (b.mantissa / Nat.pow 2 (-b.exponent).toNat)
  else
    none

/-- The decimal with last place `10 ^ place` that reads as `b`, if there is one. All
quantities are multiples of a quarter of the mantissa's last place, brought to a common
denominator. -/
def Binary.onGrid? (b : Binary) (place : Int) : Option Scaled :=
  let quarter := b.exponent - 2
  let up := Nat.pow 2 quarter.toNat * Nat.pow 10 (-place).toNat
  let step := Nat.pow 2 (-quarter).toNat * Nat.pow 10 place.toNat
  let low := (4 * b.mantissa - if b.narrowBelow then 1 else 2) * up
  let value := 4 * b.mantissa * up
  let high := (4 * b.mantissa + 2) * up
  let below := value / step
  let closed := b.mantissa % 2 = 0
  let belowHits := if closed then low ≤ below * step else low < below * step
  let aboveHits := if closed then (below + 1) * step ≤ high else (below + 1) * step < high
  let aboveNearer := (below + 1) * step - value ≤ value - below * step
  if aboveHits ∧ (¬ belowHits ∨ aboveNearer) then
    some { digits := below + 1, exponent := place }
  else if belowHits then
    some { digits := below, exponent := place }
  else
    none

/-- The first hit among the next `tries` grids, from `10 ^ place` downwards. -/
def Binary.firstHit? (b : Binary) (place : Int) : Nat → Option Scaled
  | 0 => none
  | tries + 1 => (b.onGrid? place).or (b.firstHit? (place - 1) tries)

/-- The least `n` from `start` on with `denominator ≤ numerator * 10 ^ n`, looking at no
more than `tries` of them. -/
def leadingZeros (numerator denominator start : Nat) : Nat → Nat
  | 0 => start
  | tries + 1 =>
    if denominator ≤ numerator * Nat.pow 10 start then start
    else leadingZeros numerator denominator (start + 1) tries

/-- The place of the first digit other than zero. -/
def Binary.topPlace (b : Binary) : Int :=
  let numerator := b.mantissa * Nat.pow 2 b.exponent.toNat
  let denominator := Nat.pow 2 (-b.exponent).toNat
  if denominator ≤ numerator then
    ((Nat.toDigits 10 (numerator / denominator)).length : Int) - 1
  else
    -(leadingZeros numerator denominator 1 400 : Int)

/-- The decimal with the fewest digits that reads as `b`. -/
def Binary.shortest (b : Binary) : Scaled :=
  (b.firstHit? (b.topPlace + 1) 18).getD { digits := 0, exponent := 0 }

end OpticScript.Decimal
