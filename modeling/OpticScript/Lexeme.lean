import OpticScript.Lexeme.Numeral
import OpticScript.Lexeme.Quote
import OpticScript.Token

/-!
# Lexemes

A `Lexeme` is the kind and the length of the token that a text starts with; it is never
empty. `Lexeme.scan?` tries line breaks, comments, numerals, quoted strings, words and
punctuation in that order. Numerals come before words, so that `inf` is a number.
-/

namespace OpticScript

/-- The kind and the length of a token. -/
structure Lexeme where
  kind : TokenKind
  size : Nat
  size_pos : 0 < size

namespace Lexeme

/-- The lexeme of a kind that is known by its length. -/
def ofSize? (kind : TokenKind) : Option Nat → Option Lexeme
  | some (n + 1) => some { kind, size := n + 1, size_pos := by omega }
  | _ => none

/-- The length of the line break that the text starts with. -/
def lineBreakSize? : List Char → Option Nat
  | '\r' :: '\n' :: _ => some 2
  | c :: _ => if Text.isLineBreak c then some 1 else none
  | [] => none

/-- The length of the comment that the text starts with, which ends with the line. -/
def commentSize? : List Char → Option Nat
  | '#' :: rest => some (1 + (rest.takeWhile fun c => !Text.isLineBreak c).length)
  | _ => none

/-- The punctuation that the text starts with. -/
def punctuation? (text : List Char) : Option Lexeme :=
  match TokenKind.punctuation.find? fun entry => entry.1.isPrefixOf text with
  | some (spelling, kind) => ofSize? kind (some spelling.length)
  | none => none

/-- The token that the text starts with. -/
def scan? (text : List Char) : Option Lexeme :=
  ofSize? .newline (lineBreakSize? text)
    |>.or (ofSize? .comment (commentSize? text))
    |>.or (ofSize? .number (numeralSize? text))
    |>.or (ofSize? .string (quoteSize? text))
    |>.or (ofSize? .name (wordSize? text))
    |>.or (punctuation? text)

/-- The value of a token with this kind and text; an integer may be too large for one. -/
def literal? (kind : TokenKind) (text : List Char) : Option Literal :=
  match kind with
  | .number => (numeralValue? text).map .number
  | .string => some (.text (String.ofList (unquote text)))
  | _ => some (.text (String.ofList text))

end Lexeme

end OpticScript
