import OpticScript.Number
import OpticScript.Text.Quoted

/-!
# Expressions

The arithmetic of a script, kept as a tree and never evaluated. `Expr.render` writes a
tree without parentheses, so it gives back the text of an expression that had none.
-/

namespace OpticScript

/-- A sign in front of an operand. -/
inductive Sign where
  | plus
  | minus
  deriving DecidableEq, Inhabited

def Sign.symbol : Sign → String
  | plus => "+"
  | minus => "-"

/-- An operator between two operands. -/
inductive Operator where
  | add
  | subtract
  | multiply
  | divide
  | floorDivide
  | power
  deriving DecidableEq, Inhabited

def Operator.symbol : Operator → String
  | add => "+"
  | subtract => "-"
  | multiply => "*"
  | divide => "/"
  | floorDivide => "//"
  | power => "**"

/-- An unevaluated expression. -/
inductive Expr where
  | number (value : Number)
  /-- A name, or a parameter of a named element such as `l1.P`. -/
  | name (spelling : String)
  | text (value : String)
  | unary (sign : Sign) (operand : Expr)
  | binary (operator : Operator) (left right : Expr)
  deriving BEq, DecidableEq, Inhabited

/-- The expression without blanks and parentheses. -/
def Expr.render : Expr → String
  | number value => value.render
  | name spelling => spelling
  | text value => Text.quoted value
  | unary sign operand => sign.symbol ++ operand.render
  | binary operator left right => left.render ++ operator.symbol ++ right.render

end OpticScript
