import OpticScript.Number

/-!
# Tokens

A token is a kind, the raw text it was read from, the value it carries, and its place :
a line and the columns from `startColumn` up to `stopColumn`, counted from one with tabs
expanded. The newline that closes an unterminated last line and the mark at the end of a
script were read from no text; they are `Token.synthetic`.

`TokenKind.punctuation` lists the spellings of the punctuation in the order in which
they are tried, so that `**` is found before `*`.
-/

namespace OpticScript

/-- What a token is. -/
inductive TokenKind where
  | newline
  | comment
  | number
  | string
  | name
  | comma
  | equals
  | plus
  | minus
  | times
  | divide
  | floorDivide
  | power
  | leftParen
  | rightParen
  | leftBracket
  | rightBracket
  | leftBrace
  | rightBrace
  | endMarker
  | error
  deriving DecidableEq, Inhabited

namespace TokenKind

/-- The name of the kind in the grammar. -/
def label : TokenKind → String
  | newline => "NEWLINE"
  | comment => "COMMENT"
  | number => "NUMBER"
  | string => "STRING"
  | name => "NAME"
  | comma => "COMMA"
  | equals => "EQUALS"
  | plus => "PLUS"
  | minus => "MINUS"
  | times => "TIMES"
  | divide => "DIVIDE"
  | floorDivide => "FLOORDIVIDE"
  | power => "POWER"
  | leftParen => "LPAREN"
  | rightParen => "RPAREN"
  | leftBracket => "LBRACKET"
  | rightBracket => "RBRACKET"
  | leftBrace => "LBRACE"
  | rightBrace => "RBRACE"
  | endMarker => "ENDMARKER"
  | error => "ERROR"

def all : List TokenKind :=
  [newline, comment, number, string, name, comma, equals, plus, minus, times, divide,
   floorDivide, power, leftParen, rightParen, leftBracket, rightBracket, leftBrace,
   rightBrace, endMarker, error]

/-- The kind with this name. -/
def ofLabel? (label : String) : Option TokenKind :=
  all.find? fun kind => kind.label = label

/-- The punctuation, a spelling before those that begin it. -/
def punctuation : List (List Char × TokenKind) :=
  [(['*', '*'], power), (['/', '/'], floorDivide), ([','], comma), (['='], equals),
   (['+'], plus), (['-'], minus), (['*'], times), (['/'], divide),
   (['('], leftParen), ([')'], rightParen), (['['], leftBracket), ([']'], rightBracket),
   (['\x7b'], leftBrace), (['\x7d'], rightBrace)]

theorem mem_all (kind : TokenKind) : kind ∈ all := by
  cases kind <;> decide

end TokenKind

/-- The value that a token carries. -/
inductive Literal where
  | none
  | text (value : String)
  | number (value : Number)
  deriving BEq, DecidableEq, Inhabited

/-- A piece of a script with its kind, its value and its place. -/
structure Token where
  kind : TokenKind
  /-- The raw text; empty when the token was read from none. -/
  text : String
  literal : Literal
  line : Nat
  startColumn : UInt64
  /-- One past the last column. -/
  stopColumn : UInt64
  deriving BEq, DecidableEq, Inhabited

namespace Token

/-- A token whose value is its own text. -/
def ofText (kind : TokenKind) (text : String) (line : Nat) (startColumn stopColumn : UInt64) :
    Token :=
  { kind, text, literal := .text text, line, startColumn, stopColumn }

/-- A token of no width, read from no text. -/
def synthetic (kind : TokenKind) (line : Nat) (column : UInt64) : Token :=
  { kind, text := "", literal := .none, line, startColumn := column, stopColumn := column }

def withLiteral (token : Token) (literal : Literal) : Token :=
  { token with literal }

/-- The number a token carries. -/
def number? (token : Token) : Option Number :=
  match token.literal with
  | .number value => some value
  | _ => Option.none

/-- Whether both tokens carry integers. -/
def bothIntegers (first second : Token) : Bool :=
  first.number?.any Number.isInteger && second.number?.any Number.isInteger

/-- Whether `second` begins on the line and in the column where `first` stops. -/
def adjoins (first second : Token) : Bool :=
  first.line = second.line && first.stopColumn = second.startColumn

end Token

end OpticScript
