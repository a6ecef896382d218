import OpticScript.Text.Lines

/-!
# Quoted strings

A string stands between two double or two single quotes on one line. A backslash keeps
the character after it from closing the string, whatever that character is
(`closingSize?`). Between the quotes `\n` is a line feed, `\t` a tab, and a backslash
before a backslash or a quote is dropped; before any other character it stays
(`unescape`).
-/

namespace OpticScript.Lexeme

/-- The length of the text up to and with the quote that closes it. -/
def closingSize? (quote : Char) : List Char → Option Nat
  | [] => none
  | ['\\'] => none
  | '\\' :: _ :: rest => (closingSize? quote rest).map (· + 2)
  | c :: rest =>
    if Text.isLineBreak c then none
    else if c = quote then some 1
    else (closingSize? quote rest).map (· + 1)

/-- The length of the quoted string that the text starts with. -/
def quoteSize? : List Char → Option Nat
  | [] => none
  | c :: rest => if c = '"' || c = '\'' then (closingSize? c rest).map (· + 1) else none

/-- The characters that a backslash and `c` stand for. -/
def unescapeChar (c : Char) : List Char :=
  if c = 'n' then ['\n']
  else if c = 't' then ['\t']
  else if c = '\\' || c = '\'' || c = '"' then [c]
  else ['\\', c]

/-- The text between the quotes with its escapes resolved. -/
def unescape : List Char → List Char
  | [] => []
  | ['\\'] => ['\\']
  | '\\' :: c :: rest => unescapeChar c ++ unescape rest
  | c :: rest => c :: unescape rest

/-- The contents of a quoted string. -/
def unquote (text : List Char) : List Char := unescape (text.drop 1).dropLast

end OpticScript.Lexeme
