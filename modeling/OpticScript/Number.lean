import OpticScript.Decimal.Positional
import OpticScript.Decimal.Reading

/-!
# Numbers

A numeric literal is an integer or a binary64 number. Integers that are read from a
script lie below `2 ^ 63` (`Number.integerLimit`); the two kinds are kept apart even
where they have the same value, as `2` and `2.0` have.
-/

namespace OpticScript

/-- The value of a numeric literal. -/
inductive Number where
  | integer (value : Int)
  | float (value : Float)
  deriving BEq, DecidableEq, Inhabited

namespace Number

/-- The integers of a script are smaller than this. -/
def integerLimit : Nat := Nat.pow 2 63

def isInteger : Number → Bool
  | integer _ => true
  | float _ => false

/-- The value as a binary64 number, rounded to the nearest one. -/
def toFloat : Number → Float
  | integer value => Float.ofInt value
  | float value => value

/-- Integers in plain decimal, other numbers in positional notation. -/
def render : Number → String
  | integer value => value.repr
  | float value => Decimal.render value

end Number

end OpticScript
