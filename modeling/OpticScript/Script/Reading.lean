import OpticScript.Parser

/-!
# Reading scripts

A script is its lines up to the end marker (`Parser.script`). A surface line belongs to
the command line before it, and it is an error if there is none; that is found as soon as
the line is read.

If no rule fits a line, the last token that was looked at is blamed, unless there is an
error further on in the text that the lexer finds (`Parser.diagnose`).

`Script.ofSource`, `Script.ofText` and `Script.ofFile` read whole scripts. Reading panics
(`Script.run`) if the line of the error is too long to be shown : every error that is made
while a script is read is the one that it is refused with.
-/

namespace OpticScript

namespace Parser

open Packrat

/-- The parser with its trace changed, if it keeps one. -/
def mapTrace (f : Trace → Trace) (parser : Parser) : Parser :=
  { parser with feed := parser.feed.mapTrace f }

/-- The script with a further line. -/
def addLine (script : Script) : Line → Except Blame Script
  | .blank => .ok script
  | .statement (.primary command) => .ok (script.push command)
  | .statement (.secondary surface marker) =>
    match script.addSurface? surface with
    | some script => .ok script
    | none => .error { cause := .surfaceWithoutCommand, token := marker }

/-- The script with the lines at the cursor, as many as there are. -/
def addLines (line : Parser → Reply (Option Line)) : Nat → Script → Parser → Reply Script
  | 0, _, parser => (.error .outOfFuel, parser)
  | rounds + 1, script, parser =>
    match line parser with
    | (.error halt, parser) => (.error halt, parser)
    | (.ok none, parser) => (.ok script, parser)
    | (.ok (some next), parser) =>
      match addLine script next with
      | .ok script => addLines line rounds script parser
      | .error blame => (.error (.fatal (TokenFeed.report blame parser.feed)), parser)

/-- The lines at the cursor up to the end marker. -/
def script (caching : Bool) (fuel : Nat) (parser : Parser) : Reply (Option Script) :=
  let start := parser.cursor
  match addLines (expectWith caching fuel .scriptLine) fuel .empty parser with
  | (.error halt, parser) => (.error halt, parser)
  | (.ok script, parser) =>
    match expectWith caching fuel (.token .endMarker) parser with
    | (.error halt, parser) => (.error halt, parser)
    | (.ok (some _), parser) => (.ok (some script), parser)
    | (.ok none, parser) => (.ok none, parser.moveTo start)

/-- The last token that was looked at. -/
def lastToken (parser : Parser) : Reply Token :=
  match parser.feed.tokens.back? with
  | some token => (.ok token, parser)
  | none => peek parser

/-- The error for lines that no rule fits : the next one that the lexer finds, or else
the last token that was looked at. -/
def diagnose (parser : Parser) : Halt ScriptError :=
  match lastToken parser with
  | (.error halt, _) => halt
  | (.ok token, parser) =>
    let scan := parser.feed.lexer.toEnd
    match scan.failure with
    | some e => .fatal e
    | none => .fatal (.located (scan.final.blame .unrecognized token))

/-- Reads a script at the cursor, with the given fuel. -/
def parseWith (caching : Bool) (fuel : Nat) (parser : Parser) : Reply Script :=
  match script caching fuel (mapTrace (·.attempt "start") parser) with
  | (.error halt, parser) => (.error halt, parser)
  | (.ok (some script), parser) => (.ok script, mapTrace (·.success parser.cursor) parser)
  | (.ok none, parser) => (.error (diagnose parser), mapTrace Trace.failure parser)

/-- Reads the script from the cursor to the end. -/
def parse (parser : Parser) : Reply Script := parseWith true (fuel parser) parser

end Parser

/-! ## Reading scripts -/

namespace Script

open Packrat

/-- Reads a script. -/
def ofSource (source : Source) : Except (Halt ScriptError) Script :=
  (Parser.parse (.ofLexer (.ofSource source))).1

/-- Reads a script, or panics on an error whose line is too long to be shown. -/
def run (source : Source) : Run (Except (Halt ScriptError) Script) :=
  .ofExcept (Parser.haltFits source.tab) (ofSource source)

/-- Reads a script and keeps a trace. -/
def ofSourceTraced (source : Source) : Except (Halt ScriptError) Script × Array TraceEvent :=
  let (result, parser) := Parser.parse (.ofLexer (.ofSource source) (some {}))
  (result, (parser.feed.trace.getD {}).events)

/-- Reads a script and tells a log about every rule. -/
def ofSourceLogged (source : Source) : Except (Halt ScriptError) Script × List LogRecord :=
  let (result, events) := ofSourceTraced source
  (result, events.toList.map TraceEvent.toRecord)

/-- Reads a script from the text with the given name. -/
def ofText (name text : String) : Except (Halt ScriptError) Script :=
  ofSource (Source.ofText name text)

/-- Reads the script file at `path` with these bytes, or with none if there is no such
file. A log is told of every file that is there. -/
def ofFile (path : String) (content : Option (List UInt8)) :
    Except (Halt ScriptError) Script × List LogRecord :=
  match content with
  | none => (.error (.fatal (.missingFile path)), [])
  | some bytes =>
    (ofSource (Source.ofBytes path bytes), [{ level := .debug, message := "parsing " ++ path }])

end Script

/-- The tokens of a text. -/
def tokenize (name text : String) : Except ScriptError (List Token) :=
  let scan := (Lexer.ofSource (Source.ofText name text)).toEnd
  match scan.failure with
  | some e => .error e
  | none => .ok scan.tokens

end OpticScript
