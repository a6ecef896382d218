/-!
# Reading decimals

The value of a run of digits (`ofDigits`) and the binary64 number nearest to a decimal
(`nearest`), the even one of two equally near ones. `nearest` decides the decimals
beyond either end of the range by their number of digits, so that it never forms a
power of ten larger than the digits call for.
-/

namespace OpticScript.Decimal

/-- The number that a run of decimal digits spells; the empty run spells zero. -/
def ofDigits (digits : List Char) : Nat :=
  digits.foldl (fun n c => 10 * n + (c.toNat - '0'.toNat)) 0

/-- The number above every finite one. -/
def infinity : Float := Float.ofBits 0x7ff0000000000000

/-- The binary64 number nearest to `digits * 10 ^ exponent`. From `10 ^ 309` on that is
infinity, and below `10 ^ (-330)` it is zero. -/
def nearest (digits : Nat) (exponent : Int) : Float :=
  let top := exponent + (Nat.toDigits 10 digits).length
  if digits = 0 ∨ top < -329 then 0.0
  else if 309 < top then infinity
  else Float.ofScientific digits (exponent < 0) exponent.natAbs

end OpticScript.Decimal
