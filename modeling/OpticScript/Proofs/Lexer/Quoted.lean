import OpticScript.Proofs.Lexer.Spelling
import OpticScript.Proofs.Script.Endings

/-!
# Strings at the beginning of a text

A text that begins with a symbol is lexed to that symbol first, if the symbol is scanned whatever
comes after it and is no bracket (`Lexer.nextToken_of_scans`). A string in which backslashes,
quotes and line feeds are escaped is such a symbol : the quote that closes it is the one behind its
last character, and what is between the quotes is read back (`Lexer.nextToken_escaped`).
-/

namespace OpticScript

/-- Characters without a line break are a part of the first line. -/
theorem Text.exists_lines_append {body : List Char} (hne : body ≠ [])
    (hbody : ∀ c ∈ body, isLineBreak c = false) (rest : List Char) :
    ∃ tail more, lines (body ++ rest) = (body ++ tail) :: more := by
  induction body with
  | nil => exact absurd rfl hne
  | cons c body ih =>
    obtain ⟨hc, hbody⟩ := List.forall_mem_cons.1 hbody
    rcases eq_or_ne body [] with rfl | hmore
    · rcases hlines : lines rest with _ | ⟨line, more⟩
      · obtain rfl := lines_eq_nil hlines
        exact ⟨[], [], by simp [lines, hc]⟩
      · exact ⟨line, more, lines_cons hc hlines⟩
    · obtain ⟨tail, more, hlines⟩ := ih hmore hbody
      exact ⟨tail, more, lines_cons hc hlines⟩

namespace Lexer

variable {symbol : Symbol}

/-- What is left of a line begins with the symbol, and so the symbol is the next token. -/
theorem scan_of_scans {lexer : Lexer} {tail : List Char} (hscans : symbol.Scans tail)
    (hbracket : symbol.kind.opens = false ∧ symbol.kind.opener? = none)
    (hrest : lexer.rest = symbol.text.toList ++ tail) (c : Char) :
    ∃ t after, lexer.scan c = (.ok t, after) ∧ t.symbol = symbol := by
  obtain ⟨lexeme, hscan, hkind, hsize⟩ := hscans.scan
  have htake : lexer.rest.take lexeme.size = symbol.text.toList := by
    rw [hrest, hsize, List.take_left]
  let t := (lexer.tokenHere symbol.kind symbol.text.toList).withLiteral symbol.literal
  have hplain : t.isBracket = false := by
    simpa [t, Token.isBracket, Token.withLiteral, tokenHere, Token.ofText] using hbracket
  refine ⟨t, { lexer.pass t symbol.text.toList with openers := lexer.openers }, ?_, ?_⟩
  · rw [← hrest] at hscan
    simp only [scan, hscan, htake, hkind, hscans.literal]
    rw [accept_eq, nest?_of_not_isBracket hplain]
  · simp [t, Token.symbol, Token.withLiteral, tokenHere, Token.ofText]

theorem nextToken_of_scans (hscans : ∀ tail, symbol.Scans tail)
    (hbracket : symbol.kind.opens = false ∧ symbol.kind.opener? = none) (name rest : String)
    (tab : TabStop) : ∃ t after,
      (ofSource (.ofText name (symbol.text ++ rest) tab)).nextToken = (.ok t, after) ∧
        t.symbol = symbol := by
  obtain ⟨lexeme, hscan, -, hsize⟩ := (hscans []).scan
  obtain ⟨c, text, hcons⟩ := List.exists_cons_of_length_pos (hsize ▸ lexeme.size_pos)
  have hne : symbol.text.toList ≠ [] := by simp [hcons]
  obtain ⟨tail, more, hlines⟩ := Text.exists_lines_append hne (hscans []).unbroken rest.toList
  have hblank : isBlank c = false := by
    rw [List.append_nil, hcons] at hscan
    exact Lexeme.not_isBlank_of_scan hscan
  let start := ofSource (.ofText name (symbol.text ++ rest) tab)
  let line :=
    { start.skipBlanks with unread := more.map Piece.line }.enterLine (symbol.text.toList ++ tail)
  have hunread : start.unread = .line (symbol.text.toList ++ tail) :: more.map Piece.line := by
    change (Text.lines (symbol.text ++ rest).toList).map Piece.line = _
    rw [String.toList_append, hlines, List.map_cons]
  have hrest : line.skipBlanks.rest = symbol.text.toList ++ tail := by
    change (symbol.text.toList ++ tail).dropWhile isBlank = _
    rw [hcons, List.cons_append, List.dropWhile_cons_of_neg (by simp [hblank])]
  obtain ⟨t, after, hreply, hsymbol⟩ := scan_of_scans (hscans tail) hbracket hrest c
  refine ⟨t, after, ?_, hsymbol⟩
  rw [← hreply, nextToken, show Lexer.unread _ = _ from hunread, nextTokenFrom_line _ _ rfl]
  exact nextTokenFrom_of_cons _ (hrest.trans (by rw [hcons, List.cons_append]))

/-- A text that begins with an escaped string is lexed to that string first : its text is what is
written, with the quotes, and its value is what was escaped, whatever comes after it. -/
theorem nextToken_escaped {quote : Char} (hquote : Text.IsQuote quote) {content : String}
    (hcontent : '\r' ∉ content.toList) {name rest : String} {tab : TabStop} {source : Source}
    (hsource : source.Holds name (Text.escaped quote content ++ rest) tab) :
    ∃ t after, (ofSource source).nextToken = (.ok t, after) ∧
      t.kind = .string ∧ t.text = Text.escaped quote content ∧ t.literal = .text content := by
  have hescaped : ∀ c ∈ content.toList, Text.IsEscaped quote c (Text.escapeMark quote c) :=
    fun c hc => Text.isEscaped_escapeMark hquote fun heq => hcontent (heq ▸ hc)
  obtain ⟨t, after, hnext, hsymbol⟩ :=
    nextToken_of_scans (Symbol.scans_enclose hquote hescaped) ⟨rfl, rfl⟩ name rest tab
  refine ⟨t, after, ?_, congrArg Symbol.kind hsymbol, congrArg Symbol.text hsymbol,
    congrArg Symbol.literal hsymbol⟩
  rw [hsource.eq_ofText]
  exact hnext

/-- Backslashes before a quote and at the end, both quotes, a line feed, a letter that is not
ASCII, and more text behind the closing quote. -/
theorem nextToken_escaped_backslashes :
    Text.IsQuote '\'' ∧ '\r' ∉ "\\'é\n\"\\".toList ∧
      ∃ t after, (ofSource (.ofText "" ("'\\\\\\'é\\n\"\\\\'" ++ "'\n") default)).nextToken =
        (.ok t, after) ∧
        t.kind = .string ∧ t.text = "'\\\\\\'é\\n\"\\\\'" ∧ t.literal = .text "\\'é\n\"\\" := by
  have hquote : Text.IsQuote '\'' := .inr rfl
  have hcontent : '\r' ∉ "\\'é\n\"\\".toList := by decide
  have hwritten : Text.escaped '\'' "\\'é\n\"\\" = "'\\\\\\'é\\n\"\\\\'" := by decide
  refine ⟨hquote, hcontent, ?_⟩
  rw [← hwritten]
  exact nextToken_escaped hquote hcontent (.inl rfl)

end Lexer

end OpticScript
