import OpticScript.Diagnostic
import OpticScript.Lexeme
import OpticScript.Source

/-!
# The lexer

A `Lexer` hands out the tokens of a source one at a time and reads a further line only
when the one before is used up (`Lexer.nextToken`). It keeps the lines it has read, for
the context of diagnostics, and the brackets that are still open.

A script ends with a newline token, which has no text if the last line is unterminated,
and the end marker, which is then given again on every call. A bracket that is still
open at the end is an error at the outermost of them. An error leaves the lexer where it
is; only a closing bracket that does not fit uses up the opening one all the same, and
bytes that are no text are skipped. A line that is too long to be shown makes a request panic
where there is an error on it (`Lexer.answer`); `Lexer.nextToken` is what it would give.

`Lexer.remaining` bounds the number of tokens to come (`remaining_nextToken_lt`), and
`Lexer.toEnd` runs to the end marker or the first error. A `Lexer.Stream` gives the same
tokens one by one and then ends.
-/

namespace OpticScript

/-- The state of lexing a source. -/
structure Lexer where
  /-- The name of the source. -/
  source : String
  tab : TabStop
  /-- The pieces that have not been read. -/
  unread : List Piece
  /-- The lines read so far, with their terminators. -/
  lines : Array String
  /-- What is left of the current line. -/
  rest : List Char
  /-- The columns of the current line that lie behind. -/
  column : UInt64
  /-- The line of the next token, counted from one. -/
  line : Nat
  /-- The open brackets, the innermost first. -/
  openers : List Token
  /-- Whether the current line still needs a newline token of no text. -/
  unterminated : Bool
  deriving Inhabited

namespace Lexer

def ofSource (source : Source) : Lexer :=
  { source := source.name, tab := source.tab, unread := source.pieces, lines := #[], rest := [],
    column := 0, line := 1, openers := [], unterminated := true }

/-- The text of a line, counted from one, without its terminator and with tabs expanded. -/
def sourceLine? (lexer : Lexer) (line : Nat) : Option String :=
  if line = 0 then none
  else lexer.lines[line - 1]?.map fun raw =>
    let text := (raw.toList.reverse.dropWhile Text.isLineBreak).reverse
    String.ofList (lexer.tab.expand text)

/-- Shows a line, counted from one. -/
def shownLine (lexer : Lexer) (line : Nat) : Run (Option String) :=
  .guarded ((lexer.sourceLine? line).all lexer.tab.fits) (lexer.sourceLine? line)

/-- The diagnostic that blames a token. -/
def blame (lexer : Lexer) (cause : Cause) (token : Token) : Diagnostic :=
  { cause, source := lexer.source, line := token.line, startColumn := token.startColumn,
    endColumn := token.stopColumn, text := token.text, context := lexer.sourceLine? token.line }

/-- What the lexer gives for a request, and its state afterwards. -/
abbrev Reply (α : Type) := Except ScriptError α × Lexer

/-- An error at a token, with the lexer left as it is. -/
def refuse (lexer : Lexer) (cause : Cause) (token : Token) : Reply Token :=
  (.error (.located (lexer.blame cause token)), lexer)

/-! ## Blanks and lines -/

def isBlank (c : Char) : Bool := c = ' ' || c = '\t'

/-- The lexer behind the blanks that come next. -/
def skipBlanks (lexer : Lexer) : Lexer :=
  { lexer with
    rest := lexer.rest.dropWhile isBlank
    column := lexer.column + lexer.tab.span (lexer.rest.takeWhile isBlank) }

/-- The lexer at the start of a newly read line. -/
def enterLine (lexer : Lexer) (text : List Char) : Lexer :=
  { lexer with
    lines := lexer.lines.push (String.ofList text)
    rest := text
    column := 0
    unterminated := !text.getLast?.any Text.isLineBreak }

/-- The reply once every line is used up. -/
def finish (lexer : Lexer) : Reply Token :=
  match lexer.openers.getLast? with
  | some opener => lexer.refuse (.unclosed opener.text) opener
  | none =>
    if lexer.unterminated then
      (.ok (.synthetic .newline lexer.line (lexer.column + 1)),
        { lexer with line := lexer.line + 1, column := 0, unterminated := false })
    else
      (.ok (.synthetic .endMarker lexer.line 1), lexer)

/-! ## Tokens -/

/-- The lexer behind a token of the current line. -/
def advance (lexer : Lexer) (text : List Char) : Lexer :=
  { lexer with
    rest := lexer.rest.drop text.length
    column := lexer.column + lexer.tab.span text }

/-- The token of this kind and text at the current place. -/
def tokenHere (lexer : Lexer) (kind : TokenKind) (text : List Char) : Token :=
  .ofText kind (String.ofList text) lexer.line (lexer.column + 1)
    (lexer.column + lexer.tab.span text + 1)

/-- The error for a text that no token begins, up to the end of the line. -/
def refuseCharacter (lexer : Lexer) (c : Char) : Reply Token :=
  lexer.refuse (.illegalCharacter c)
    (lexer.tokenHere .error (lexer.rest.takeWhile fun c => !Text.isLineBreak c))

/-- Takes a closing bracket, whose opening bracket has to be of the kind `opener`. -/
def close (lexer : Lexer) (token : Token) (text : List Char) (opener : TokenKind) :
    Reply Token :=
  match lexer.openers with
  | [] => lexer.refuse (.extraneous token.text) token
  | innermost :: outer =>
    let lexer := { lexer with openers := outer }
    if innermost.kind = opener then (.ok token, lexer.advance text)
    else lexer.refuse (.extraneous token.text) token

/-- Takes a token of the current line. -/
def accept (lexer : Lexer) (token : Token) (text : List Char) : Reply Token :=
  match token.kind with
  | .newline => (.ok token, { lexer.advance text with line := lexer.line + 1 })
  | .leftBracket | .leftParen =>
    (.ok token, { lexer.advance text with openers := token :: lexer.openers })
  | .rightBracket => lexer.close token text .leftBracket
  | .rightParen => lexer.close token text .leftParen
  | _ => (.ok token, lexer.advance text)

/-- The reply at the character `c`, which is the first of the rest and no blank. -/
def scan (lexer : Lexer) (c : Char) : Reply Token :=
  match Lexeme.scan? lexer.rest with
  | none => lexer.refuseCharacter c
  | some lexeme =>
    let text := lexer.rest.take lexeme.size
    let token := lexer.tokenHere lexeme.kind text
    match Lexeme.literal? lexeme.kind text with
    | none => lexer.refuse .invalidNumber token
    | some literal => lexer.accept (token.withLiteral literal) text

/-- The next token, when these pieces are the unread ones. -/
def nextTokenFrom : List Piece → Lexer → Reply Token
  | [], lexer =>
    let lexer := lexer.skipBlanks
    match lexer.rest with
    | c :: _ => lexer.scan c
    | [] => lexer.finish
  | piece :: more, lexer =>
    let lexer := lexer.skipBlanks
    match lexer.rest, piece with
    | c :: _, _ => lexer.scan c
    | [], .undecodable =>
      (.error (.unreadable lexer.source (lexer.lines.size + 1)), { lexer with unread := more })
    | [], .line text => nextTokenFrom more ({ lexer with unread := more }.enterLine text)

/-- The next token; at the end of the script that is the end marker every time. -/
def nextToken (lexer : Lexer) : Reply Token :=
  nextTokenFrom lexer.unread lexer

/-- Asks for the next token. An error shows its line, if the lexer has it. -/
def answer (lexer : Lexer) : Run (Except ScriptError Token) :=
  .ofExcept (·.fits lexer.tab) lexer.nextToken.1

/-! ## Whole scripts -/

/-- What a piece may add to the tokens to come. -/
def pieceWeight : Piece → Nat
  | .line text => text.length + 2
  | .undecodable => 1

/-- A bound on the number of tokens to come before the end marker. -/
def remaining (lexer : Lexer) : Nat :=
  lexer.unread.foldr (fun piece weight => pieceWeight piece + weight) 0 + lexer.rest.length
    + lexer.unterminated.toNat

theorem length_rest_skipBlanks (lexer : Lexer) :
    lexer.skipBlanks.rest.length ≤ lexer.rest.length := by
  simpa [skipBlanks] using (List.dropWhile_sublist isBlank).length_le

theorem remaining_skipBlanks (lexer : Lexer) : lexer.skipBlanks.remaining ≤ lexer.remaining := by
  have := lexer.length_rest_skipBlanks
  simp only [remaining, skipBlanks] at *
  omega

/-- A token of the current line is taken off the rest of it. -/
theorem remaining_accept {lexer after : Lexer} {token t : Token} {text : List Char}
    (h : lexer.accept token text = (.ok t, after)) :
    after.unread = lexer.unread ∧ after.unterminated = lexer.unterminated ∧
      after.rest = lexer.rest.drop text.length := by
  unfold accept close refuse at h
  split at h <;> grind [advance]

theorem remaining_scan_lt {lexer after : Lexer} {c : Char} {t : Token} (hc : lexer.rest ≠ [])
    (h : lexer.scan c = (.ok t, after)) : after.remaining < lexer.remaining := by
  unfold scan at h
  split at h
  · simp [refuseCharacter, refuse] at h
  · rename_i lexeme _
    dsimp only at h
    split at h
    · simp [refuse] at h
    · obtain ⟨hu, ht, hr⟩ := remaining_accept h
      have := lexeme.size_pos
      have := List.length_pos_iff.2 hc
      simp only [remaining, hu, ht, hr, List.length_drop, List.length_take]
      omega

theorem remaining_finish_lt {lexer after : Lexer} {t : Token} (h : lexer.finish = (.ok t, after))
    (ht : t.kind ≠ .endMarker) : after.remaining < lexer.remaining := by
  unfold finish at h
  split at h
  · simp [refuse] at h
  · split at h
    · rename_i hu
      obtain ⟨rfl, rfl⟩ : _ ∧ _ := by simpa using h
      simp [remaining, hu]
    · grind [Token.synthetic]

theorem remaining_enterLine_lt (lexer : Lexer) (text : List Char) (more : List Piece)
    (hu : lexer.unread = .line text :: more) :
    ({ lexer with unread := more }.enterLine text).remaining < lexer.remaining := by
  have : (!text.getLast?.any Text.isLineBreak).toNat ≤ 1 := Bool.toNat_le _
  simp only [remaining, enterLine, hu, List.foldr_cons, pieceWeight]
  omega

theorem remaining_nextTokenFrom_lt : ∀ (pieces : List Piece) {lexer after : Lexer} {t : Token},
    lexer.unread = pieces → nextTokenFrom pieces lexer = (.ok t, after) →
      t.kind ≠ .endMarker → after.remaining < lexer.remaining
  | [], lexer, after, t, _, h, ht => by
    have hs := lexer.remaining_skipBlanks
    unfold nextTokenFrom at h
    dsimp only at h
    split at h
    · rename_i hr
      exact Nat.lt_of_lt_of_le (remaining_scan_lt (by simp [hr]) h) hs
    · exact Nat.lt_of_lt_of_le (remaining_finish_lt h ht) hs
  | piece :: more, lexer, after, t, hu, h, ht => by
    have hs := lexer.remaining_skipBlanks
    unfold nextTokenFrom at h
    dsimp only at h
    split at h
    · rename_i hr
      exact Nat.lt_of_lt_of_le (remaining_scan_lt (by simp [hr]) h) hs
    · simp at h
    · exact Nat.lt_of_lt_of_le (Nat.lt_trans (remaining_nextTokenFrom_lt more rfl h ht)
        (remaining_enterLine_lt lexer.skipBlanks _ more hu)) hs

/-- Every token but the end marker leaves fewer to come. -/
theorem remaining_nextToken_lt {lexer after : Lexer} {t : Token}
    (h : lexer.nextToken = (.ok t, after)) (ht : t.kind ≠ .endMarker) :
    after.remaining < lexer.remaining :=
  remaining_nextTokenFrom_lt lexer.unread rfl h ht

/-- The outcome of lexing a whole script. -/
structure Scan where
  /-- The tokens before the failure, or all of them with the end marker. -/
  tokens : List Token
  failure : Option ScriptError
  /-- The lexer after the last request. -/
  final : Lexer

/-- The tokens up to the end marker or the first error. -/
def toEnd (lexer : Lexer) : Scan :=
  match _h : lexer.nextToken with
  | (.error e, final) => { tokens := [], failure := some e, final }
  | (.ok t, after) =>
    if _ht : t.kind = .endMarker then { tokens := [t], failure := none, final := after }
    else
      let scan := after.toEnd
      { scan with tokens := t :: scan.tokens }
termination_by lexer.remaining
decreasing_by exact remaining_nextToken_lt _h _ht

/-- The tokens of a lexer one by one, up to the end marker or the first error. -/
structure Stream where
  lexer : Lexer
  ended : Bool := false

/-- The next token or error, if there is one. -/
def Stream.next (stream : Stream) : Option (Except ScriptError Token) × Stream :=
  if stream.ended then (none, stream)
  else match stream.lexer.nextToken with
    | (.error e, lexer) => (some (.error e), { lexer, ended := true })
    | (.ok t, lexer) => (some (.ok t), { lexer, ended := t.kind = .endMarker })

end Lexer

end OpticScript
