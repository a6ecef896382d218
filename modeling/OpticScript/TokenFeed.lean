import OpticScript.Grammar
import OpticScript.Lexer
import OpticScript.Packrat.Engine
import OpticScript.Trace

/-!
# The tokens of a parse

A parse of a script is fed by a lexer (`TokenFeed.feed`) : a token is lexed when it is
first looked at and kept from then on. A complaint of the grammar becomes a diagnostic at
its token, and the events of the parse become a trace if one is kept.
-/

namespace OpticScript

/-- The tokens of a lexer, kept once they are read. -/
structure TokenFeed where
  lexer : Lexer
  /-- The tokens read so far. -/
  tokens : Array Token
  /-- The trace of the parse, if one is kept. -/
  trace : Option Trace

namespace TokenFeed

/-- The token with this number, which is at most one past the tokens read. -/
def token (pos : Nat) : TokenFeed → Except ScriptError Token × TokenFeed
  | ⟨lexer, tokens, trace⟩ =>
    match tokens[pos]? with
    | some token => (.ok token, ⟨lexer, tokens, trace⟩)
    | none =>
      match lexer.nextToken with
      | (.ok token, lexer) => (.ok token, ⟨lexer, tokens.push token, trace⟩)
      | (.error e, lexer) => (.error e, ⟨lexer, tokens, trace⟩)

/-- The feed with its trace changed, if it keeps one. -/
def mapTrace (f : Trace → Trace) (feed : TokenFeed) : TokenFeed :=
  match feed.trace with
  | none => feed
  | some trace => { feed with trace := some (f trace) }

/-- What an event of the parse adds to the trace. -/
def observe : Packrat.Event Rule → TokenFeed → TokenFeed
  | .attempt rule => mapTrace (·.attempt rule.label)
  | .run _ => id
  | .matched _ stop => mapTrace (·.success stop)
  | .failed _ => mapTrace Trace.failure
  | .abandoned _ => mapTrace Trace.abandon

/-- The error that a complaint of the grammar amounts to. -/
def report (blame : Blame) (feed : TokenFeed) : ScriptError :=
  .located (feed.lexer.blame blame.cause blame.token)

/-- A parse is fed with the tokens; there is always a next one. -/
def feed : Packrat.Feed Rule Token Blame ScriptError TokenFeed where
  item pos source :=
    match token pos source with
    | (.ok token, source) => (.ok (some token), source)
    | (.error e, source) => (.error e, source)
  report := report
  observe := observe

end TokenFeed

end OpticScript
