import OpticScript.Script
import OpticScript.Token
import OpticScript.Diagnostic

/-!
# The rules of the script grammar

The names of the rules and what a match of each is (`Rule.Result`). A token of each kind
is a rule as well. Four rules call themselves where they begin
(`Rule.isLeftRecursive`).
-/

namespace OpticScript

/-- A cause and the token at fault. -/
structure Blame where
  cause : Cause
  token : Token
  deriving BEq, Inhabited

/-- A line that is not blank. -/
inductive Statement where
  | primary (command : Command)
  /-- A surface line, and its plus sign. -/
  | secondary (surface : Parameters) (marker : Token)
  deriving BEq, Inhabited

/-- A line of a script. -/
inductive Line where
  | blank
  | statement (statement : Statement)
  deriving BEq, Inhabited

/-- A rule of the grammar. -/
inductive Rule where
  | token (kind : TokenKind)
  | scriptLine
  | command
  | commandParams
  | valueList
  | nextValue
  | keywordList
  | positionalValue
  | value
  | keyValue
  | action
  /-- Sums and differences. -/
  | sum
  /-- Products and quotients. -/
  | product
  /-- Signs. -/
  | signed
  /-- Powers. -/
  | power
  /-- Numbers, names, texts and groups. -/
  | operand
  /-- Two numbers run together. -/
  | brokenNumber
  deriving DecidableEq, Inhabited

namespace Rule

/-- What a match of a rule is. -/
@[reducible] def Result : Rule → Type
  | token _ => Token
  | scriptLine => Line
  | command => Statement
  | commandParams => Parameters
  | valueList => List Value
  | nextValue | positionalValue | value => Value
  | keywordList | keyValue => Keywords
  | action => String
  | sum | product | signed | power | operand => Expr
  | brokenNumber => Blame

/-- The name of the rule in the grammar. -/
def label : Rule → String
  | token kind => kind.label
  | scriptLine => "script_line"
  | command => "command"
  | commandParams => "command_params"
  | valueList => "value_list"
  | nextValue => "next_value"
  | keywordList => "kwarg_list"
  | positionalValue => "positional_value"
  | value => "value"
  | keyValue => "key_value"
  | action => "action"
  | sum => "expr"
  | product => "expr1"
  | signed => "expr2"
  | power => "expr3"
  | operand => "expr4"
  | brokenNumber => "invalid_expr4"

/-- Every rule, the tokens last. -/
def all : List Rule :=
  [scriptLine, command, commandParams, valueList, nextValue, keywordList, positionalValue,
   value, keyValue, action, sum, product, signed, power, operand, brokenNumber]
    ++ TokenKind.all.map token

/-- The rule with this name. -/
def ofLabel? (label : String) : Option Rule := all.find? fun rule => rule.label = label

/-- Whether the rule calls itself where it begins. -/
def isLeftRecursive : Rule → Bool
  | keywordList | action | sum | product => true
  | _ => false

theorem mem_all (rule : Rule) : rule ∈ all := by
  cases rule with
  | token kind => simp [all, TokenKind.mem_all]
  | _ => simp [all]

end Rule

end OpticScript
