import OpticScript.Packrat.Grammar
import OpticScript.Rule

/-!
# The script grammar

A script is a list of lines. A line is blank or a comment, or a name or a plus sign with
parameters after it, a comment or none, and a newline. Parameters are values and then
values under keys, with commas between them; one more comma may stand at the end of the
line. A value is an action, if it can be read as one, and an expression otherwise.

Sums and products group from the left and call themselves where they begin; a power
groups from the right and binds tighter than a sign in front of it, but not after it.

Three lines are errors rather than no match : a key and an equals sign with no value
(`keyValue`), and two numbers run together (`operand`, `brokenNumber`).
-/

namespace OpticScript

/-- What has to come next in a script, with a result of type `α`. -/
abbrev Phrase (α : Type) := Packrat.Branch Rule Rule.Result Token Blame α

namespace Phrase

open Packrat

/-- A match of a rule. -/
def rule (r : Rule) : Phrase r.Result := .call r .done

/-- A token of this kind. -/
def token (kind : TokenKind) : Phrase Token := .call (.token kind) .done

/-- A match of a rule, or none. -/
def optional (r : Rule) : Phrase (Option r.Result) := .maybe r none .done

/-- A token of this kind, or none. -/
def optionalToken (kind : TokenKind) : Phrase (Option Token) := .maybe (.token kind) none .done

/-- As many matches of a rule as there are. -/
def many (r : Rule) : Phrase (List r.Result) := .star r .done

/-- As many tokens of this kind as there are, and at least one. -/
def someTokens (kind : TokenKind) : Phrase Unit :=
  .star (.token kind) fun tokens => Branch.require !tokens.isEmpty

/-- A comma that ends the line but for a comment, or nothing. -/
def trailingComma : Phrase Unit :=
  .maybe (.token .comma) (some fun t => t.kind = .newline || t.kind = .comment)
    fun _ => .done ()

/-- Nothing, provided that the next token is of another kind. -/
def notBefore (kind : TokenKind) : Phrase Unit :=
  .look fun t => Branch.require (t.kind ≠ kind)

/-- The letters of motion codes. -/
def motionCodes : List Char := ['c', 'd', 'h', 'i', 'n', 'r', 's', 't', 'v']

/-- Whether a word consists of motion codes. -/
def isMotion (word : String) : Bool :=
  !word.isEmpty && word.toList.all (motionCodes.contains ·)

/-- The count that may follow a group of motion codes, as it is spelled : none, or an
integer. -/
def repeatCount? : Option Token → Option String
  | none => some ""
  | some token =>
    match token.number? with
    | some (.integer count) => some count.repr
    | _ => none

/-- A left operand, an operator of this kind, and a right operand. -/
def binary (left : Phrase Expr) (kind : TokenKind) (operator : Operator)
    (right : Phrase Expr) : Phrase Expr := do
  let l ← left
  let _ ← token kind
  let r ← right
  return .binary operator l r

/-- A motion in brackets. -/
def bracketed (opening closing : TokenKind) : Phrase String := do
  let left ← token opening
  let inner ← rule .action
  let right ← token closing
  return left.text ++ inner ++ right.text

/-! ## The branches of each rule -/

def tokenBranches (kind : TokenKind) : List (Phrase Token) :=
  [.take (·.kind = kind) .done]

def scriptLine : List (Phrase Line) :=
  [do
    let statement ← rule .command
    let _ ← optionalToken .comment
    let _ ← token .newline
    return .statement statement,
   do
    let _ ← optionalToken .comment
    let _ ← token .newline
    return .blank]

def command : List (Phrase Statement) :=
  [do
    let name ← token .name
    let parameters ← rule .commandParams
    return .primary { directive := name.text, parameters },
   do
    let marker ← token .plus
    let parameters ← rule .commandParams
    return .secondary parameters marker]

def commandParams : List (Phrase Parameters) :=
  [do
    let args ← rule .valueList
    let _ ← token .comma
    let keywords ← rule .keywordList
    trailingComma
    return { args, keywords },
   do
    let args ← rule .valueList
    trailingComma
    return { args, keywords := .empty },
   do
    let keywords ← rule .keywordList
    trailingComma
    return { args := [], keywords }]

def valueList : List (Phrase (List Value)) :=
  [do
    let first ← rule .positionalValue
    let others ← many .nextValue
    return first :: others]

def nextValue : List (Phrase Value) :=
  [do
    let _ ← token .comma
    rule .positionalValue]

def keywordList : List (Phrase Keywords) :=
  [do
    let keywords ← rule .keywordList
    someTokens .comma
    let more ← rule .keywordList
    return keywords.merge more,
   rule .keyValue]

/-- A value that is not the key of another one. -/
def positionalValue : List (Phrase Value) :=
  [do
    let value ← rule .value
    notBefore .equals
    return value]

def value : List (Phrase Value) :=
  [do
    let codes ← rule .action
    return .action codes,
   do
    let expr ← rule .sum
    return .expr expr]

/-- A key, an equals sign, and a value, which has to be there. -/
def keyValue : List (Phrase Keywords) :=
  [do
    let name ← token .name
    let equals ← token .equals
    match ← optional .value with
    | some value => return Keywords.ofList [(name.text, value)]
    | none => .raise { cause := .missingValue, token := equals }]

/-- Motion codes, groups of them with a count or none, and sequences of both. -/
def action : List (Phrase String) :=
  [do
    let first ← rule .action
    let second ← rule .action
    return first ++ second,
   do
    let left ← token .leftBrace
    let inner ← rule .action
    let right ← token .rightBrace
    let count ← optionalToken .number
    let count ← Branch.ofOption (repeatCount? count)
    return left.text ++ inner ++ right.text ++ count,
   bracketed .leftBracket .rightBracket,
   bracketed .leftParen .rightParen,
   do
    let name ← token .name
    Branch.require (isMotion name.text)
    return name.text]

def sum : List (Phrase Expr) :=
  [binary (rule .sum) .plus .add (rule .product),
   binary (rule .sum) .minus .subtract (rule .product),
   rule .product]

def product : List (Phrase Expr) :=
  [binary (rule .product) .times .multiply (rule .signed),
   binary (rule .product) .divide .divide (rule .signed),
   binary (rule .product) .floorDivide .floorDivide (rule .signed),
   rule .signed]

def signed : List (Phrase Expr) :=
  [do
    let _ ← token .plus
    let operand ← rule .signed
    return .unary .plus operand,
   do
    let _ ← token .minus
    let operand ← rule .signed
    return .unary .minus operand,
   rule .power]

def power : List (Phrase Expr) :=
  [binary (rule .operand) .power .power (rule .signed),
   rule .operand]

/-- The text of a string token. -/
def contents (token : Token) : String :=
  match token.literal with
  | .text text => text
  | _ => token.text

def operand : List (Phrase Expr) :=
  [do
    let _ ← token .leftParen
    let inner ← rule .sum
    let _ ← token .rightParen
    return inner,
   do
    let number ← token .number
    notBefore .number
    let value ← Branch.ofOption number.number?
    return .number value,
   do
    let name ← token .name
    return .name name.text,
   do
    let string ← token .string
    return .text (contents string),
   do
    let blame ← rule .brokenNumber
    .raise blame]

/-- Two numbers with nothing between them. -/
def brokenNumber : List (Phrase Blame) :=
  [do
    let first ← token .number
    let second ← token .number
    Branch.require (first.adjoins second)
    return if first.bothIntegers second then { cause := .leadingZeros, token := first }
      else { cause := .invalidNumberForm, token := second }]

/-- The branches of a rule. -/
def branches : (r : Rule) → List (Phrase r.Result)
  | .token kind => tokenBranches kind
  | .scriptLine => scriptLine
  | .command => command
  | .commandParams => commandParams
  | .valueList => valueList
  | .nextValue => nextValue
  | .keywordList => keywordList
  | .positionalValue => positionalValue
  | .value => value
  | .keyValue => keyValue
  | .action => action
  | .sum => sum
  | .product => product
  | .signed => signed
  | .power => power
  | .operand => operand
  | .brokenNumber => brokenNumber

end Phrase

/-- The strategy of a rule : the left recursive ones are grown. Whether the others are
cached makes no difference but for time. -/
def Rule.strategy (caching : Bool) (r : Rule) : Packrat.Strategy :=
  if r.isLeftRecursive then .grown else if caching then .cached else .plain

/-- The grammar of scripts. -/
def scriptGrammar (caching : Bool := true) : Packrat.Grammar Rule Rule.Result Token Blame where
  production r := { branches := Phrase.branches r }
  strategy := Rule.strategy caching

end OpticScript
