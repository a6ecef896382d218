import OpticScript.Node
import OpticScript.TokenFeed

/-!
# The parser

A `Parser` is a parse of the script grammar that is fed by a lexer. It is used step by
step, as a `Request` says, and can go on after an error. Every step takes as much fuel as
it can need : the nesting of rules is bounded by the number of tokens (`Parser.fuel`).

`Parser.answer` is what a step gives. The step panics instead if that has an error in it whose
line is too long to be shown (`Parser.run`).
-/

namespace OpticScript

/-- A parse of a script. The table keeps the matches of all rules as nodes. -/
abbrev Parser := Packrat.State Rule (fun _ => Node) TokenFeed

namespace Parser

open Packrat

/-- The answer to a request, and the parser afterwards. -/
abbrev Reply (α : Type) := Except (Halt ScriptError) α × Parser

/-- A parser at the start of what a lexer gives. -/
def ofLexer (lexer : Lexer) (trace : Option Trace := none) : Parser :=
  { cursor := 0, table := .empty, feed := { lexer, tokens := #[], trace } }

/-- A bound on the nesting of rules : no more than ten of them begin at any token. -/
def fuel (parser : Parser) : Nat :=
  16 * (parser.feed.tokens.size + parser.feed.lexer.remaining + 4)

/-- The token at the cursor. -/
def peek (parser : Parser) : Reply Token :=
  match parser.feed.token parser.cursor with
  | (.ok token, feed) => (.ok token, { parser with feed })
  | (.error e, feed) => (.error (.fatal e), { parser with feed })

/-- The token at the cursor, which is consumed. -/
def get (parser : Parser) : Reply Token :=
  match peek parser with
  | (.ok token, parser) => (.ok token, parser.moveTo (parser.cursor + 1))
  | (.error halt, parser) => (.error halt, parser)

/-- Whether the token at the cursor is of this kind. -/
def isAt (kind : TokenKind) (parser : Parser) : Reply Bool :=
  match peek parser with
  | (.ok token, parser) => (.ok (token.kind = kind), parser)
  | (.error halt, parser) => (.error halt, parser)

/-- Whether the token at the cursor is of any other kind. -/
def isNotAt (kind : TokenKind) (parser : Parser) : Reply Bool :=
  match isAt kind parser with
  | (.ok answer, parser) => (.ok !answer, parser)
  | (.error halt, parser) => (.error halt, parser)

/-- Runs a rule of the grammar `scriptGrammar caching` with the given fuel. -/
def callWith (caching : Bool) (fuel : Nat) (rule : Rule) (parser : Parser) : Reply (Option Node) :=
  Packrat.call (scriptGrammar caching) Rule.nodes TokenFeed.feed fuel rule parser

/-- Runs a rule and takes its result out of the node. -/
def expectWith (caching : Bool) (fuel : Nat) (rule : Rule) (parser : Parser) :
    Reply (Option rule.Result) :=
  Packrat.expect Rule.nodes rule (callWith caching fuel rule) parser

/-- A token of this kind, consumed, or none. -/
def maybeToken (caching : Bool) (fuel : Nat) (kind : TokenKind) (parser : Parser) :
    Reply (Option Token) :=
  let start := parser.cursor
  match expectWith caching fuel (.token kind) parser with
  | (.ok none, parser) => (.ok none, parser.moveTo start)
  | answer => answer

/-- As many tokens of this kind as there are, or none of them if they are fewer than
`least`. -/
def tokens (caching : Bool) (fuel : Nat) (kind : TokenKind) (least : Nat) (parser : Parser) :
    Reply (Option (List Token)) :=
  let start := parser.cursor
  match repeatedly (expectWith caching fuel (.token kind)) fuel parser with
  | (.error halt, parser) => (.error halt, parser)
  | (.ok tokens, parser) =>
    if least ≤ tokens.length then (.ok (some tokens), parser)
    else (.ok none, parser.moveTo start)

/-! ## Requests -/

/-- What a parser can be asked for. -/
inductive Request where
  /-- The position of the cursor. -/
  | mark
  /-- The cursor at another position. -/
  | reset (pos : Nat)
  | peek
  | get
  | isAt (kind : TokenKind)
  | isNotAt (kind : TokenKind)
  | rule (rule : Rule)
  | token (kind : TokenKind)
  | maybeToken (kind : TokenKind)
  | tokens (kind : TokenKind) (least : Nat)
  deriving DecidableEq

/-- The type of the answer to a request. -/
@[reducible] def Request.Answer : Request → Type
  | mark => Nat
  | reset _ => Unit
  | peek | get => Token
  | isAt _ | isNotAt _ => Bool
  | rule _ => Option Node
  | token _ | maybeToken _ => Option Token
  | tokens _ _ => Option (List Token)

/-- Answers a request with the given fuel. -/
def answerWith (caching : Bool) (fuel : Nat) :
    (request : Request) → Parser → Reply request.Answer
  | .mark, parser => (.ok parser.cursor, parser)
  | .reset pos, parser => (.ok (), parser.moveTo pos)
  | .peek, parser => peek parser
  | .get, parser => get parser
  | .isAt kind, parser => isAt kind parser
  | .isNotAt kind, parser => isNotAt kind parser
  | .rule r, parser => callWith caching fuel r parser
  | .token kind, parser => expectWith caching fuel (.token kind) parser
  | .maybeToken kind, parser => maybeToken caching fuel kind parser
  | .tokens kind least, parser => tokens caching fuel kind least parser

/-- Answers a request. -/
def answer (request : Request) (parser : Parser) : Reply request.Answer :=
  answerWith true (fuel parser) request parser

/-- Whether an error can be made with tabs of this width. -/
def haltFits (tab : TabStop) : Halt ScriptError → Bool
  | .fatal e => e.fits tab
  | .outOfFuel => true

/-- Whether the errors in an answer can be made. The node for two numbers that run together has
one in it. -/
def answerFits (tab : TabStop) : (request : Request) → Reply request.Answer → Bool
  | .rule _, (.ok (some (.invalid blame)), parser) => (TokenFeed.report blame parser.feed).fits tab
  | _, (.ok _, _) => true
  | _, (.error halt, _) => haltFits tab halt

/-- Answers a request, or panics on an error whose line is too long to be shown. -/
def run (request : Request) (parser : Parser) : Run (Reply request.Answer) :=
  .guarded (answerFits parser.feed.lexer.tab request (answer request parser))
    (answer request parser)

end Parser

end OpticScript
