import OpticScript.Text.Property

/-!
# Escaped text

Text as it is shown to a reader: in double quotes (`quoted`) or as a single character
(`shown`). The marked characters and the backslash get a backslash; tab, line feed,
carriage return and NUL have letters of their own; whatever has no glyph, or would be
drawn on its neighbour, is written as `\u{` code point `}` in lower-case hexadecimal.
-/

namespace OpticScript.Text

/-- The letter that stands for `c` after a backslash, where one does. -/
def shortEscape? (marked : List Char) (c : Char) : Option Char :=
  if c = '\t' then some 't'
  else if c = '\n' then some 'n'
  else if c = '\r' then some 'r'
  else if c = '\x00' then some '0'
  else if c = '\\' ∨ c ∈ marked then some c
  else none

/-- One character, escaped where it has to be. -/
def escapeChar (marked : List Char) (c : Char) : List Char :=
  match shortEscape? marked c with
  | some letter => ['\\', letter]
  | none =>
    if isExtending c || isUnprintable c then
      ['\\', 'u', '\x7b'] ++ Nat.toDigits 16 c.toNat ++ ['\x7d']
    else [c]

/-- The text in double quotes, with the quotes inside it escaped. -/
def quoted (text : String) : String :=
  String.ofList (['"'] ++ text.toList.flatMap (escapeChar ['"']) ++ ['"'])

/-- A character as it appears inside a message, either quote mark escaped. -/
def shown (c : Char) : String :=
  String.ofList (escapeChar ['"', '\''] c)

end OpticScript.Text
