import OpticScript.Packrat.Engine

/-!
# Grammars over characters

A grammar over single characters that is given as data : each rule is a list of
alternatives, and an alternative is a list of symbols (`Symbol`). The result of a rule is
its name with the parts of the alternative that matched, `sum(sum(d(1)),+,d(2))`. The
feed of such a parse is a text, and it counts how often the branches of each rule are
run (`Text.runs`).

`CharGrammar.call` runs a rule with fuel for any nesting in which a rule does not come
back to itself without some change of the table.
-/

namespace OpticScript.Packrat

/-- A part of an alternative. -/
inductive Symbol where
  /-- One character out of a set. -/
  | oneOf (characters : List Char)
  /-- A match of the rule with this number. -/
  | rule (index : Nat)
  /-- The end of the parse, with a message. -/
  | abort (message : String)
  deriving DecidableEq

/-- A rule over characters. -/
structure CharRule where
  name : String
  alternatives : List (List Symbol)
  /-- Whether the rule is grown from a seed. -/
  leftRecursive : Bool := false
  /-- Whether a failure leaves the cursor where the last alternative failed. -/
  leaky : Bool := false
  deriving DecidableEq

/-- Rules that call each other by number. -/
abbrev CharGrammar := List CharRule

/-- Every rule has a text for a result. -/
abbrev CharResult (_ : Nat) : Type := String

/-- A text that is parsed, and the number of runs of each rule. -/
structure CharFeed where
  text : Array Char
  runs : Array Nat

/-- A parse of a text. -/
abbrev CharParse := State Nat CharResult CharFeed

namespace CharGrammar

/-- The result of a rule. -/
def phrase (name : String) (parts : List String) : String :=
  name ++ "(" ++ String.intercalate "," parts ++ ")"

/-- The branch that matches the symbols one by one, `parts` being what came before, the
last part first. -/
def branch (name : String) (parts : List String) :
    List Symbol → Branch Nat CharResult Char String String
  | [] => .done (phrase name parts.reverse)
  | .oneOf characters :: rest =>
    .take (characters.contains ·) fun c => branch name (String.singleton c :: parts) rest
  | .rule index :: rest => .call index fun part => branch name (part :: parts) rest
  | .abort message :: _ => .raise message

def production (rule : CharRule) : Production Nat CharResult Char String String :=
  { branches := rule.alternatives.map (branch rule.name []), leaky := rule.leaky }

/-- The grammar in the form that the engine runs; a number with no rule never matches. -/
def toGrammar (rules : CharGrammar) : Grammar Nat CharResult Char String where
  production index := ((rules[index]?).map production).getD { branches := [] }
  strategy index := if rules[index]?.any CharRule.leftRecursive then .grown else .cached

/-- The characters of a text, and a count of the runs. -/
def feed : Feed Nat Char String String CharFeed where
  item pos source := (.ok source.text[pos]?, source)
  report message _ := message
  observe event source :=
    match event with
    | .run index => { source with runs := source.runs.modify index (· + 1) }
    | _ => source

/-- A parse that has not begun. -/
def start (rules : CharGrammar) (text : String) : CharParse :=
  { cursor := 0, table := .empty,
    feed := { text := text.toList.toArray, runs := Array.replicate rules.length 0 } }

/-- The number of positions that a parse can come to. -/
def reach (parse : CharParse) : Nat :=
  max parse.feed.text.size (max parse.cursor parse.table.farthest) + 1

/-- Between two calls of a rule at one position some other rule leaves its first memo
there or elsewhere, so no rule nests deeper at a position than there are memos. -/
def fuel (rules : CharGrammar) (parse : CharParse) : Nat :=
  let memos := rules.length * reach parse
  (memos + 1) * (memos + 1)

/-- Runs the rule with this number at the cursor. -/
def call (rules : CharGrammar) (index : Nat) (parse : CharParse) :
    Except (Halt String) (Option String) × CharParse :=
  Packrat.call (toGrammar rules) .plain feed (fuel rules parse) index parse

end CharGrammar

end OpticScript.Packrat
