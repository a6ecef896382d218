import OpticScript.Lexeme.Word
import OpticScript.Number

/-!
# Numerals

The forms of a number in a script (`numeralSize?`), the first that matches and each as
long as it can be :

* `inf`, with no character of a word after it;
* digits, a point, digits or none, and an exponent or none;
* digits and an exponent;
* a point, digits, and an exponent or none;
* a run of zeros;
* a digit other than zero and further digits.

An exponent is `e` or `E`, a sign or none, and digits. Only the last two forms are
integers, and `01` is two of them. `numeralValue?` is the value of a numeral, which
only an integer at or above `Number.integerLimit` lacks.
-/

namespace OpticScript.Lexeme

/-- The number of digits that the text starts with. -/
def digitCount (text : List Char) : Nat := (text.takeWhile Char.isDigit).length

/-- Whether the text starts with a sign. -/
def startsSigned : List Char → Bool
  | [] => false
  | c :: _ => c = '+' || c = '-'

/-- The length of the exponent that the text starts with. -/
def exponentSize? : List Char → Option Nat
  | [] => none
  | c :: rest =>
    if c = 'e' || c = 'E' then
      let sign := if startsSigned rest then 1 else 0
      let digits := digitCount (rest.drop sign)
      if digits = 0 then none else some (1 + sign + digits)
    else none

/-- The length of an exponent, or zero if there is none. -/
def exponentSize (text : List Char) : Nat := (exponentSize? text).getD 0

/-- The length of a fraction without its point : digits and an exponent or none. -/
def fractionSize (text : List Char) : Nat :=
  digitCount text + exponentSize (text.drop (digitCount text))

/-- Whether the text starts with `inf` and no longer word. -/
def startsInfinite : List Char → Bool
  | 'i' :: 'n' :: 'f' :: rest => !rest.head?.any isWordChar
  | _ => false

/-- The length of the numeral that starts with the `whole` digits before `rest`. -/
def numeralSizeAfter (text : List Char) (whole : Nat) : List Char → Nat
  | '.' :: fraction => whole + 1 + fractionSize fraction
  | rest =>
    match exponentSize? rest with
    | some exponent => whole + exponent
    | none => if text.head? = some '0' then (text.takeWhile (· = '0')).length else whole

/-- The length of the numeral that the text starts with. -/
def numeralSize? (text : List Char) : Option Nat :=
  if startsInfinite text then some 3
  else if 0 < digitCount text then
    some (numeralSizeAfter text (digitCount text) (text.drop (digitCount text)))
  else match text with
    | '.' :: fraction => if 0 < digitCount fraction then some (1 + fractionSize fraction) else none
    | _ => none

/-- The number that an exponent spells, its letter included. -/
def exponentValue : List Char → Int
  | _ :: '-' :: digits => -(Decimal.ofDigits digits : Int)
  | _ :: '+' :: digits => Decimal.ofDigits digits
  | _ :: digits => Decimal.ofDigits digits
  | [] => 0

/-- The number that a numeral with a point or an exponent spells. -/
def pointValue (text : List Char) : Float :=
  let whole := text.takeWhile Char.isDigit
  let rest := text.dropWhile Char.isDigit
  let afterPoint := if rest.head? = some '.' then rest.drop 1 else []
  let fraction := afterPoint.takeWhile Char.isDigit
  let exponent := if rest.head? = some '.' then afterPoint.dropWhile Char.isDigit else rest
  Decimal.nearest (Decimal.ofDigits (whole ++ fraction))
    (exponentValue exponent - fraction.length)

/-- The value of a numeral. -/
def numeralValue? (text : List Char) : Option Number :=
  if startsInfinite text then some (.float Decimal.infinity)
  else if text.any (fun c => c = '.' || c = 'e' || c = 'E') then
    some (.float (pointValue text))
  else if Decimal.ofDigits text < Number.integerLimit then
    some (.integer (Decimal.ofDigits text))
  else none

end OpticScript.Lexeme
