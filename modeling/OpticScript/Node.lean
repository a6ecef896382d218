import OpticScript.Packrat.Grammar
import OpticScript.Rule

/-!
# Nodes

The memos of a parse are of one type, whatever their rules are : a match is kept as a `Node`, and
the variant of the node says what it is of (`Node.Kind`). A rule tags its results (`Rule.wrap`),
and whoever calls the rule takes the result out of the node again (`Rule.unwrap`). That fails for
a node of another variant, so a result with the wrong tag would be lost on the way.

No result is lost (`Rule.nodes_lawful`) : the tag of a result is the variant that belongs to the
rule (`Rule.kind_wrap`), and that is the variant the callers of the rule expect
(`Rule.isSome_unwrap_iff`).
-/

namespace OpticScript

/-- A match of a rule, as it is kept. -/
inductive Node where
  | token (token : Token)
  | line (line : Line)
  | statement (statement : Statement)
  | params (args : List Value) (keywords : Keywords)
  | values (values : List Value)
  | value (value : Value)
  | keywords (keywords : Keywords)
  | action (codes : String)
  | expr (e : Expr)
  | invalid (blame : Blame)
  deriving BEq, Inhabited

namespace Node

/-- A variant of a node. -/
inductive Kind where
  | token
  | line
  | statement
  | params
  | values
  | value
  | keywords
  | action
  | expr
  | invalid
  deriving DecidableEq, Repr

def kind : Node → Kind
  | token _ => .token
  | line _ => .line
  | statement _ => .statement
  | params _ _ => .params
  | values _ => .values
  | value _ => .value
  | keywords _ => .keywords
  | action _ => .action
  | expr _ => .expr
  | invalid _ => .invalid

/-! ## What is in a node of the variant -/

def token? : Node → Option Token
  | .token t => some t
  | _ => none

def line? : Node → Option Line
  | .line l => some l
  | _ => none

def statement? : Node → Option Statement
  | .statement s => some s
  | _ => none

def params? : Node → Option Parameters
  | .params args k => some { args, keywords := k }
  | _ => none

def values? : Node → Option (List Value)
  | .values vs => some vs
  | _ => none

def value? : Node → Option Value
  | .value v => some v
  | _ => none

def keywords? : Node → Option Keywords
  | .keywords k => some k
  | _ => none

def action? : Node → Option String
  | .action codes => some codes
  | _ => none

def expr? : Node → Option Expr
  | .expr e => some e
  | _ => none

def invalid? : Node → Option Blame
  | .invalid b => some b
  | _ => none

end Node

namespace Rule

/-- The variant that belongs to the rule. -/
def kind : Rule → Node.Kind
  | token _ => .token
  | scriptLine => .line
  | command => .statement
  | commandParams => .params
  | valueList => .values
  | nextValue | positionalValue | value => .value
  | keywordList | keyValue => .keywords
  | action => .action
  | sum | product | signed | power | operand => .expr
  | brokenNumber => .invalid

/-- The node that a match of the rule is kept as. -/
def wrap : (rule : Rule) → rule.Result → Node
  | .token _, t => .token t
  | .scriptLine, l => .line l
  | .command, s => .statement s
  | .commandParams, p => .params p.args p.keywords
  | .valueList, vs => .values vs
  | .nextValue, v | .positionalValue, v | .value, v => .value v
  | .keywordList, k | .keyValue, k => .keywords k
  | .action, codes => .action codes
  | .sum, e | .product, e | .signed, e | .power, e | .operand, e => .expr e
  | .brokenNumber, b => .invalid b

/-- What the callers of the rule find in a node. -/
def unwrap : (rule : Rule) → Node → Option rule.Result
  | .token _ => Node.token?
  | .scriptLine => Node.line?
  | .command => Node.statement?
  | .commandParams => Node.params?
  | .valueList => Node.values?
  | .nextValue | .positionalValue | .value => Node.value?
  | .keywordList | .keyValue => Node.keywords?
  | .action => Node.action?
  | .sum | .product | .signed | .power | .operand => Node.expr?
  | .brokenNumber => Node.invalid?

@[simp] theorem kind_wrap (rule : Rule) (result : rule.Result) :
    (rule.wrap result).kind = rule.kind := by
  cases rule <;> rfl

@[simp] theorem unwrap_wrap (rule : Rule) (result : rule.Result) :
    rule.unwrap (rule.wrap result) = some result := by
  cases rule <;> rfl

/-- The callers of a rule find something in the nodes of its variant, and in no others. -/
theorem isSome_unwrap_iff (rule : Rule) (node : Node) :
    (rule.unwrap node).isSome ↔ node.kind = rule.kind := by
  cases rule <;> cases node <;>
    simp [unwrap, kind, Node.kind, Node.token?, Node.line?, Node.statement?, Node.params?,
      Node.values?, Node.value?, Node.keywords?, Node.action?, Node.expr?, Node.invalid?]

/-- Results are kept as nodes. -/
def nodes : Packrat.Wrapping Rule Result fun _ => Node where
  wrap := wrap
  unwrap := unwrap

/-- No match is discarded. -/
theorem nodes_lawful : nodes.Lawful := unwrap_wrap

end Rule

end OpticScript
