/-!
# Words

A word starts with a letter or an underscore and goes on with letters, digits,
underscores and dots, so that `l1.P` is one word. Letters and digits are those of ASCII :
a script may hold any other character only in strings and comments.
-/

namespace OpticScript.Lexeme

def isWordStart (c : Char) : Bool := c.isAlpha || c = '_'

def isWordChar (c : Char) : Bool := c.isAlphanum || c = '_' || c = '.'

/-- The length of the word that the text starts with. -/
def wordSize? : List Char → Option Nat
  | [] => none
  | c :: rest =>
    if isWordStart c then some (1 + (rest.takeWhile isWordChar).length) else none

end OpticScript.Lexeme
