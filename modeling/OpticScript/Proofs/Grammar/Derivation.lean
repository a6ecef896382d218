import OpticScript.Script
import OpticScript.Token

/-!
# Derivations

The grammar of scripts as relations : `DerivesX tokens rest a` says that the tokens of
`tokens` before `rest` are derived from `X`, and that `a` is the abstract syntax of the
derivation.

    start            = script_line* ENDMARKER
    script_line      = command COMMENT? NEWLINE | COMMENT? NEWLINE
    command          = NAME command_params | '+' command_params
    command_params   = value_list ',' kwarg_list ','? | value_list ','? | kwarg_list ','?
    value_list       = positional_value (',' positional_value)*
    kwarg_list       = kwarg_list ','+ kwarg_list | key_value
    positional_value = value !'='
    value            = action | expr
    key_value        = NAME '=' value
    action           = action action | '{' action '}' NUMBER? | '[' action ']'
                     | '(' action ')' | NAME of the letters c d h i n r s t v
    expr             = expr ('+' | '-') expr1 | expr1
    expr1            = expr1 ('*' | '/' | '//') expr2 | expr2
    expr2            = ('+' | '-') expr2 | expr3
    expr3            = expr4 '**' expr2 | expr4
    expr4            = '(' expr ')' | NUMBER !NUMBER | NAME | STRING

The rules of expressions are the tiers of one relation (`DerivesExpr`). A condition on what
comes after a rule is one on the first token of `rest`; a comma at the end of a line is
such a condition as well (`DerivesTrailing`).

A line has a form (`LineForm`). `commandsOf` makes commands of the forms of a script, and
`surfacesOf` is what the lines before the first command would add to a command before
them. Neither loses a line (`directive_commandsOf`, `surfaces_commandsOf`).
-/

namespace OpticScript

/-- A comma that ends the line but for a comment, or nothing. -/
inductive DerivesTrailing : List Token → List Token → Prop
  | nothing (rest : List Token) : DerivesTrailing rest rest
  | comma {comma next : Token} {rest : List Token} (hcomma : comma.kind = .comma)
      (hnext : next.kind = .newline ∨ next.kind = .comment) :
      DerivesTrailing (comma :: next :: rest) (next :: rest)

/-- A comment or nothing. -/
inductive DerivesComment : List Token → List Token → Prop
  | nothing (rest : List Token) : DerivesComment rest rest
  | comment {comment : Token} {rest : List Token} (h : comment.kind = .comment) :
      DerivesComment (comment :: rest) rest

/-- At least one comma. -/
inductive DerivesCommas : List Token → List Token → Prop
  | one {comma : Token} {rest : List Token} (h : comma.kind = .comma) :
      DerivesCommas (comma :: rest) rest
  | more {comma : Token} {tokens rest : List Token} (h : comma.kind = .comma)
      (others : DerivesCommas tokens rest) : DerivesCommas (comma :: tokens) rest

/-! ## Actions -/

/-- A repeat count or nothing, and its spelling. -/
inductive DerivesCount : List Token → List Token → String → Prop
  | nothing (rest : List Token) : DerivesCount rest rest ""
  | count {number : Token} {rest : List Token} {value : Int} (h : number.kind = .number)
      (hvalue : number.number? = some (.integer value)) :
      DerivesCount (number :: rest) rest value.repr

/-- A word of motion codes. -/
def IsMotionWord (word : String) : Prop :=
  word ≠ "" ∧ ∀ c ∈ word.toList, c ∈ ['c', 'd', 'h', 'i', 'n', 'r', 's', 't', 'v']

/-- Motion codes, groups of them and sequences of both. -/
inductive DerivesAction : List Token → List Token → String → Prop
  | join {tokens mid rest : List Token} {first second : String}
      (left : DerivesAction tokens mid first) (right : DerivesAction mid rest second) :
      DerivesAction tokens rest (first ++ second)
  | braces {left right : Token} {tokens mid rest : List Token} {inner count : String}
      (hleft : left.kind = .leftBrace) (action : DerivesAction tokens (right :: mid) inner)
      (hright : right.kind = .rightBrace) (repeats : DerivesCount mid rest count) :
      DerivesAction (left :: tokens) rest (left.text ++ inner ++ right.text ++ count)
  | brackets {left right : Token} {tokens rest : List Token} {inner : String}
      (hleft : left.kind = .leftBracket) (action : DerivesAction tokens (right :: rest) inner)
      (hright : right.kind = .rightBracket) :
      DerivesAction (left :: tokens) rest (left.text ++ inner ++ right.text)
  | parens {left right : Token} {tokens rest : List Token} {inner : String}
      (hleft : left.kind = .leftParen) (action : DerivesAction tokens (right :: rest) inner)
      (hright : right.kind = .rightParen) :
      DerivesAction (left :: tokens) rest (left.text ++ inner ++ right.text)
  | codes {word : Token} {rest : List Token} (h : word.kind = .name)
      (hcodes : IsMotionWord word.text) : DerivesAction (word :: rest) rest word.text

/-! ## Expressions -/

/-- The rules of expressions, the loosest first. -/
inductive Tier where
  | sum
  | product
  | signed
  | power
  | operand
  deriving DecidableEq

/-- The operators of sums. -/
inductive SumOperator : TokenKind → Operator → Prop
  | plus : SumOperator .plus .add
  | minus : SumOperator .minus .subtract

/-- The operators of products. -/
inductive ProductOperator : TokenKind → Operator → Prop
  | times : ProductOperator .times .multiply
  | divide : ProductOperator .divide .divide
  | floorDivide : ProductOperator .floorDivide .floorDivide

/-- The signs. -/
inductive SignToken : TokenKind → Sign → Prop
  | plus : SignToken .plus .plus
  | minus : SignToken .minus .minus

/-- The text that a string token stands for : the text it carries, if it carries one. -/
def IsContents (string : Token) (text : String) : Prop :=
  string.literal = .text text ∨ (∀ s, string.literal ≠ .text s) ∧ text = string.text

/-- Expressions by tiers. Sums and products group from the left. The right operand of a power
is a signed one, and its left operand is not. -/
inductive DerivesExpr : Tier → List Token → List Token → Expr → Prop
  | sum {tokens mid rest : List Token} {operator : Token} {op : Operator} {l r : Expr}
      (left : DerivesExpr .sum tokens (operator :: mid) l) (hop : SumOperator operator.kind op)
      (right : DerivesExpr .product mid rest r) :
      DerivesExpr .sum tokens rest (.binary op l r)
  | ofProduct {tokens rest : List Token} {e : Expr} (h : DerivesExpr .product tokens rest e) :
      DerivesExpr .sum tokens rest e
  | product {tokens mid rest : List Token} {operator : Token} {op : Operator} {l r : Expr}
      (left : DerivesExpr .product tokens (operator :: mid) l)
      (hop : ProductOperator operator.kind op) (right : DerivesExpr .signed mid rest r) :
      DerivesExpr .product tokens rest (.binary op l r)
  | ofSigned {tokens rest : List Token} {e : Expr} (h : DerivesExpr .signed tokens rest e) :
      DerivesExpr .product tokens rest e
  | signed {sign : Token} {s : Sign} {tokens rest : List Token} {e : Expr}
      (hsign : SignToken sign.kind s) (operand : DerivesExpr .signed tokens rest e) :
      DerivesExpr .signed (sign :: tokens) rest (.unary s e)
  | ofPower {tokens rest : List Token} {e : Expr} (h : DerivesExpr .power tokens rest e) :
      DerivesExpr .signed tokens rest e
  | power {tokens mid rest : List Token} {operator : Token} {l r : Expr}
      (left : DerivesExpr .operand tokens (operator :: mid) l) (hop : operator.kind = .power)
      (right : DerivesExpr .signed mid rest r) :
      DerivesExpr .power tokens rest (.binary .power l r)
  | ofOperand {tokens rest : List Token} {e : Expr} (h : DerivesExpr .operand tokens rest e) :
      DerivesExpr .power tokens rest e
  | parens {left right : Token} {tokens rest : List Token} {e : Expr}
      (hleft : left.kind = .leftParen) (inner : DerivesExpr .sum tokens (right :: rest) e)
      (hright : right.kind = .rightParen) : DerivesExpr .operand (left :: tokens) rest e
  | number {number next : Token} {rest : List Token} {value : Number}
      (h : number.kind = .number) (hnext : next.kind ≠ .number)
      (hvalue : number.number? = some value) :
      DerivesExpr .operand (number :: next :: rest) (next :: rest) (.number value)
  | name {name : Token} {rest : List Token} (h : name.kind = .name) :
      DerivesExpr .operand (name :: rest) rest (.name name.text)
  | string {string : Token} {rest : List Token} {text : String} (h : string.kind = .string)
      (htext : IsContents string text) :
      DerivesExpr .operand (string :: rest) rest (.text text)

/-! ## Parameters -/

/-- An action or an expression. -/
inductive DerivesValue : List Token → List Token → Value → Prop
  | action {tokens rest : List Token} {codes : String} (h : DerivesAction tokens rest codes) :
      DerivesValue tokens rest (.action codes)
  | expr {tokens rest : List Token} {e : Expr} (h : DerivesExpr .sum tokens rest e) :
      DerivesValue tokens rest (.expr e)

/-- A value with no equals sign after it. -/
inductive DerivesPositional : List Token → List Token → Value → Prop
  | value {tokens rest : List Token} {next : Token} {v : Value}
      (h : DerivesValue tokens (next :: rest) v) (hnext : next.kind ≠ .equals) :
      DerivesPositional tokens (next :: rest) v

/-- Values with a comma before each. -/
inductive DerivesMoreValues : List Token → List Token → List Value → Prop
  | nothing (rest : List Token) : DerivesMoreValues rest rest []
  | more {comma : Token} {tokens mid rest : List Token} {v : Value} {vs : List Value}
      (hcomma : comma.kind = .comma) (head : DerivesPositional tokens mid v)
      (tail : DerivesMoreValues mid rest vs) :
      DerivesMoreValues (comma :: tokens) rest (v :: vs)

/-- Values with commas between them. -/
inductive DerivesValueList : List Token → List Token → List Value → Prop
  | values {tokens mid rest : List Token} {v : Value} {vs : List Value}
      (head : DerivesPositional tokens mid v) (tail : DerivesMoreValues mid rest vs) :
      DerivesValueList tokens rest (v :: vs)

/-- Values under keys, with commas between them. -/
inductive DerivesPairs : List Token → List Token → List (String × Value) → Prop
  | join {tokens mid mid' rest : List Token} {ps qs : List (String × Value)}
      (left : DerivesPairs tokens mid ps) (commas : DerivesCommas mid mid')
      (right : DerivesPairs mid' rest qs) : DerivesPairs tokens rest (ps ++ qs)
  | pair {name equals : Token} {tokens rest : List Token} {v : Value}
      (hname : name.kind = .name) (hequals : equals.kind = .equals)
      (h : DerivesValue tokens rest v) :
      DerivesPairs (name :: equals :: tokens) rest [(name.text, v)]

/-- The parameters of a line : values, and the pairs of keys and values after them. -/
inductive DerivesParams :
    List Token → List Token → List Value → List (String × Value) → Prop
  | both {comma : Token} {tokens mid mid' rest : List Token} {args : List Value}
      {pairs : List (String × Value)} (values : DerivesValueList tokens (comma :: mid) args)
      (hcomma : comma.kind = .comma) (keywords : DerivesPairs mid mid' pairs)
      (trailing : DerivesTrailing mid' rest) : DerivesParams tokens rest args pairs
  | values {tokens mid rest : List Token} {args : List Value}
      (values : DerivesValueList tokens mid args) (trailing : DerivesTrailing mid rest) :
      DerivesParams tokens rest args []
  | keywords {tokens mid rest : List Token} {pairs : List (String × Value)}
      (keywords : DerivesPairs tokens mid pairs) (trailing : DerivesTrailing mid rest) :
      DerivesParams tokens rest [] pairs

/-! ## Lines -/

/-- A line in abstract syntax. -/
inductive LineForm where
  | blank
  | command (directive : String) (args : List Value) (pairs : List (String × Value))
  | surface (args : List Value) (pairs : List (String × Value))

/-- A command line or a surface line without its comment and its newline. -/
inductive DerivesCommand : List Token → List Token → LineForm → Prop
  | command {name : Token} {tokens rest : List Token} {args : List Value}
      {pairs : List (String × Value)} (h : name.kind = .name)
      (params : DerivesParams tokens rest args pairs) :
      DerivesCommand (name :: tokens) rest (.command name.text args pairs)
  | surface {plus : Token} {tokens rest : List Token} {args : List Value}
      {pairs : List (String × Value)} (h : plus.kind = .plus)
      (params : DerivesParams tokens rest args pairs) :
      DerivesCommand (plus :: tokens) rest (.surface args pairs)

/-- A line with its newline. -/
inductive DerivesLine : List Token → List Token → LineForm → Prop
  | command {tokens mid rest : List Token} {newline : Token} {form : LineForm}
      (h : DerivesCommand tokens mid form) (comment : DerivesComment mid (newline :: rest))
      (hnewline : newline.kind = .newline) : DerivesLine tokens rest form
  | blank {tokens rest : List Token} {newline : Token}
      (comment : DerivesComment tokens (newline :: rest)) (hnewline : newline.kind = .newline) :
      DerivesLine tokens rest .blank

/-- Lines one after the other. -/
inductive DerivesLines : List Token → List Token → List LineForm → Prop
  | nil (rest : List Token) : DerivesLines rest rest []
  | cons {tokens mid rest : List Token} {form : LineForm} {forms : List LineForm}
      (head : DerivesLine tokens mid form) (tail : DerivesLines mid rest forms) :
      DerivesLines tokens rest (form :: forms)

/-- The tokens of a whole script : lines, and the end marker. -/
inductive DerivesScript : List Token → List LineForm → Prop
  | lines {tokens : List Token} {mark : Token} {forms : List LineForm}
      (h : DerivesLines tokens [mark] forms) (hmark : mark.kind = .endMarker) :
      DerivesScript tokens forms

/-! ## Commands -/

/-- The parameters of a line, the pairs inserted from left to right. -/
def parametersOf (args : List Value) (pairs : List (String × Value)) : Parameters :=
  { args, keywords := .ofList pairs }

/-- The surfaces of the lines before the first command. -/
def surfacesOf : List LineForm → List Parameters
  | [] => []
  | .blank :: forms => surfacesOf forms
  | .surface args pairs :: forms => parametersOf args pairs :: surfacesOf forms
  | .command _ _ _ :: _ => []

/-- One command for each command line, with the surfaces of the lines between it and the next
one. -/
def commandsOf : List LineForm → List Command
  | [] => []
  | .blank :: forms => commandsOf forms
  | .surface _ _ :: forms => commandsOf forms
  | .command directive args pairs :: forms =>
    { directive, parameters := parametersOf args pairs, surfaces := (surfacesOf forms).toArray }
      :: commandsOf forms

/-- The directive of a command line. -/
def LineForm.directive? : LineForm → Option String
  | command directive _ _ => some directive
  | _ => none

/-- The parameters of a surface line. -/
def LineForm.surface? : LineForm → Option Parameters
  | surface args pairs => some (parametersOf args pairs)
  | _ => none

/-- Every command line is a command. -/
theorem directive_commandsOf (forms : List LineForm) :
    (commandsOf forms).map Command.directive = forms.filterMap LineForm.directive? := by
  induction forms with
  | nil => rfl
  | cons form forms ih => cases form <;>
    simp [commandsOf, LineForm.directive?, List.filterMap_cons, ih]

/-- Every surface line is a surface of a command, or would be one of a command before them. -/
theorem surfaces_commandsOf (forms : List LineForm) :
    surfacesOf forms ++ (commandsOf forms).flatMap (fun command => command.surfaces.toList) =
      forms.filterMap LineForm.surface? := by
  induction forms with
  | nil => rfl
  | cons form forms ih =>
    cases form <;> simp [commandsOf, surfacesOf, LineForm.surface?, List.filterMap_cons, ← ih]

end OpticScript
