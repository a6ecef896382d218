import OpticScript.Decimal.Shortest

/-!
# Positional notation

A decimal written out in full, never with an exponent (`Scaled.positional`), and a
binary64 number in that notation (`render`): a whole number exactly and with the
fraction `.0`, any other number with the fewest digits that read back as it.
-/

namespace OpticScript.Decimal

/-- `digits * 10 ^ exponent` with every place written out. -/
def Scaled.positional (d : Scaled) : List Char :=
  let digits := Nat.toDigits 10 d.digits
  if 0 ≤ d.exponent then
    digits ++ List.replicate d.exponent.toNat '0'
  else
    let places := (-d.exponent).toNat
    if digits.length ≤ places then
      '0' :: '.' :: (List.replicate (places - digits.length) '0' ++ digits)
    else
      digits.take (digits.length - places) ++ '.' :: digits.drop (digits.length - places)

/-- The magnitude of a finite number: `12.0`, `0.25`. -/
def Binary.render (b : Binary) : List Char :=
  match b.whole? with
  | some n => Nat.toDigits 10 n ++ ['.', '0']
  | none => b.shortest.positional

/-- The text of a binary64 number: `inf`, `-inf` and `NaN` for those that are not finite,
a sign in front of every other negative one, the negative zero included. -/
def render (x : Float) : String :=
  let bits := x.toBits.toNat
  let magnitude := bits % Nat.pow 2 63
  let sign := if Nat.pow 2 63 ≤ bits then "-" else ""
  if 2047 * Nat.pow 2 52 < magnitude then "NaN"
  else if magnitude = 2047 * Nat.pow 2 52 then sign ++ "inf"
  else sign ++ String.ofList (Binary.ofBits magnitude).render

end OpticScript.Decimal
