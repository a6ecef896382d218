import OpticScript.Proofs.Grammar.Matching
import OpticScript.Proofs.Lexeme.Scanning
import OpticScript.Proofs.Lexer.Endings
import OpticScript.Proofs.Lexer.Nesting
import OpticScript.Proofs.Text.Lines

/-!
# Lines that are spelled

A line is scanned as its symbols one by one (`Scanned`), and blanks between them do not matter.
A piece of a line is scanned as symbols whatever comes after it, if that does not go on with a
word, and its brackets fit together (`Spelling`). Pieces are put together of symbols from the
right (`Spelling.cons`), of groups in brackets (`Spelling.group`) and of other pieces
(`Spelling.append`).

A lexer gives the symbols of such lines one after the other, and then the end marker
(`Lexer.shows_lines`).
-/

namespace OpticScript

open Lexeme

/-- What is left of a line is scanned as these symbols, with blanks before some of them. -/
inductive Scanned : List Char → List Symbol → Prop
  | newline : Scanned ['\n'] [.newline]
  | blank {c : Char} {text : List Char} {symbols : List Symbol} (hc : Lexer.isBlank c = true)
      (h : Scanned text symbols) : Scanned (c :: text) symbols
  | cons {symbol : Symbol} {text : List Char} {symbols : List Symbol} (hfirst : symbol.Scans text)
      (h : Scanned text symbols) : Scanned (symbol.text.toList ++ text) (symbol :: symbols)

/-- What is scanned as a symbol is read as a token with that symbol. -/
theorem Symbol.Scans.ofLine {symbol : Symbol} {rest : List Char} (h : symbol.Scans rest)
    (tab : TabStop) (number : Nat) (column : UInt64) : ∃ t : Token, t.symbol = symbol ∧
      Reading.ofLine tab number column (symbol.text.toList ++ rest) =
        (Reading.ofLine tab number (column + tab.span symbol.text.toList) rest).cons t := by
  obtain ⟨lexeme, hscan, hkind, hsize⟩ := h.scan
  obtain ⟨c, tail, hcons⟩ : ∃ c tail, symbol.text.toList ++ rest = c :: tail := by
    refine List.exists_cons_of_length_pos ?_
    have := lexeme.size_pos
    rw [List.length_append]
    omega
  have htake : (c :: tail).take lexeme.size = symbol.text.toList := by
    rw [← hcons, hsize, List.take_left]
  have hdrop : (c :: tail).drop lexeme.size = rest := by
    rw [← hcons, hsize, List.drop_left]
  rw [hcons] at hscan ⊢
  have hliteral : literal? lexeme.kind ((c :: tail).take lexeme.size) = some symbol.literal := by
    rw [htake, hkind, h.literal]
  refine ⟨(Token.placed tab number column symbol.kind symbol.text.toList).withLiteral
    symbol.literal, ?_, ?_⟩
  · simp [Token.symbol, Token.withLiteral, Token.placed, Token.ofText]
  · rw [Reading.ofLine_cons (not_isBlank_of_scan hscan) hscan hliteral, htake, hdrop, hkind]

namespace Scanned

variable {text : List Char} {symbols : List Symbol}

theorem exists_body (h : Scanned text symbols) :
    ∃ body, text = body ++ ['\n'] ∧ ∀ c ∈ body, Text.isLineBreak c = false := by
  induction h with
  | newline => exact ⟨[], rfl, by simp⟩
  | @blank c _ _ hc _ ih =>
    obtain ⟨body, rfl, hbody⟩ := ih
    exact ⟨c :: body, rfl, List.forall_mem_cons.2 ⟨Text.isLineBreak_of_isBlank hc, hbody⟩⟩
  | @cons symbol _ _ hfirst _ ih =>
    obtain ⟨body, rfl, hbody⟩ := ih
    exact ⟨symbol.text.toList ++ body, (List.append_assoc _ _ _).symm,
      List.forall_mem_append.2 ⟨hfirst.unbroken, hbody⟩⟩

theorem ofLine (h : Scanned text symbols) (tab : TabStop) (number : Nat) (column : UInt64) :
    ∃ tokens, Reading.ofLine tab number column text = { tokens, fault := none } ∧
      tokens.map Token.symbol = symbols := by
  induction h generalizing column with
  | newline =>
    have hscan : Lexeme.scan? ['\n'] = some ⟨.newline, 1, Nat.one_pos⟩ := rfl
    have hliteral : Lexeme.literal? .newline ['\n'] = some (.text "\n") := rfl
    refine ⟨[Token.placed tab number column .newline ['\n']], ?_, rfl⟩
    rw [Reading.ofLine_cons rfl hscan hliteral]
    simp [Reading.empty, Reading.cons, Token.withLiteral, Token.placed, Token.ofText]
  | @blank c text _ hc _ ih =>
    obtain ⟨tokens, heq, hsymbols⟩ := ih (column + tab.columns c)
    refine ⟨tokens, ?_, hsymbols⟩
    rw [Reading.ofLine, if_pos hc, heq]
  | @cons symbol text _ hfirst _ ih =>
    obtain ⟨tokens, heq, rfl⟩ := ih (column + tab.span symbol.text.toList)
    obtain ⟨t, hsymbol, hreads⟩ := hfirst.ofLine tab number column
    exact ⟨t :: tokens, by rw [hreads, heq]; rfl, by rw [List.map_cons, hsymbol]⟩

end Scanned

/-! ## Pieces of a line -/

/-- A piece of a line is scanned as these symbols, if no word goes on behind it, and the brackets
in it fit together. -/
structure Spelling (text : List Char) (symbols : List Symbol) : Prop where
  scanned : ∀ rest more, EndsWord rest → Scanned rest more → Scanned (text ++ rest)
    (symbols ++ more)
  nested : ∀ tokens openers, tokens.map Token.symbol = symbols →
    nestAll? openers tokens = some openers

namespace Spelling

variable {text text' : List Char} {symbols symbols' : List Symbol} {symbol : Symbol} {c : Char}

theorem nil : Spelling [] [] where
  scanned _ _ _ h := h
  nested tokens openers h := by
    obtain rfl := List.map_eq_nil_iff.1 h
    rfl

theorem blank (hc : Lexer.isBlank c = true) (h : Spelling text symbols) :
    Spelling (c :: text) symbols where
  scanned rest more hrest hmore := .blank hc (h.scanned rest more hrest hmore)
  nested := h.nested

theorem endsWord_append (htext : EndsWord text) {rest : List Char} (hrest : EndsWord rest) :
    EndsWord (text ++ rest) := by
  rcases text with _ | ⟨c, text⟩
  · exact hrest
  · exact htext

theorem append (h : Spelling text symbols) (htext' : EndsWord text')
    (h' : Spelling text' symbols') : Spelling (text ++ text') (symbols ++ symbols') where
  scanned rest more hrest hmore := by
    rw [List.append_assoc, List.append_assoc]
    exact h.scanned _ _ (endsWord_append htext' hrest) (h'.scanned _ _ hrest hmore)
  nested tokens openers heq := by
    obtain ⟨tokens, tokens', rfl, hsymbols, hsymbols'⟩ := List.map_eq_append_iff.1 heq
    rw [nestAll?_append, h.nested tokens openers hsymbols]
    exact h'.nested tokens' openers hsymbols'

/-- A symbol that is no bracket in front of a piece. -/
theorem cons (hkind : symbol.kind.opens = false ∧ symbol.kind.opener? = none)
    (hscans : ∀ rest, EndsWord rest → symbol.Scans (text ++ rest)) (h : Spelling text symbols) :
    Spelling (symbol.text.toList ++ text) (symbol :: symbols) where
  scanned rest more hrest hmore := by
    rw [List.append_assoc]
    exact .cons (hscans rest hrest) (h.scanned rest more hrest hmore)
  nested tokens openers heq := by
    obtain ⟨t, tokens, rfl, rfl, hsymbols⟩ := List.map_eq_cons_iff.1 heq
    have hbracket : t.isBracket = false := by simpa [Token.isBracket, Token.symbol] using hkind
    rw [nestAll?_cons, nest?_of_not_isBracket hbracket]
    exact h.nested tokens openers hsymbols

theorem single (hkind : symbol.kind.opens = false ∧ symbol.kind.opener? = none)
    (hscans : ∀ rest, EndsWord rest → symbol.Scans rest) :
    Spelling symbol.text.toList [symbol] := by
  have hfirst : ∀ rest, EndsWord rest → symbol.Scans ([] ++ rest) := hscans
  simpa using nil.cons hkind hfirst

/-- A piece in brackets in front of another one. -/
theorem group (b : Bracket) (h : Spelling text symbols) (h' : Spelling text' symbols') :
    Spelling (b.opening.text.toList ++ text ++ b.closing.text.toList ++ text')
      (b.opening :: symbols ++ b.closing :: symbols') where
  scanned rest more hrest hmore := by
    have hopen : b.opening.Scans (text ++ (b.closing.text.toList ++ (text' ++ rest))) := by
      cases b <;> exact Symbol.scans_plain (by decide) (by decide) _
    have hclose : b.closing.Scans (text' ++ rest) := by
      cases b <;> exact Symbol.scans_plain (by decide) (by decide) _
    have hend : EndsWord (b.closing.text.toList ++ (text' ++ rest)) := by
      cases b <;> exact endsWord_cons rfl _
    simp only [List.append_assoc, List.cons_append]
    exact .cons hopen (h.scanned _ _ hend (.cons hclose (h'.scanned _ _ hrest hmore)))
  nested tokens openers heq := by
    obtain ⟨opening, tokens, rfl, hopening, hrest⟩ := List.map_eq_cons_iff.1 heq
    obtain ⟨inner, tokens, rfl, hinner, hrest⟩ := List.map_eq_append_iff.1 hrest
    obtain ⟨closing, tokens, rfl, hclosing, hsymbols⟩ := List.map_eq_cons_iff.1 hrest
    have hopen : opening.kind = b.opening.kind := congrArg Symbol.kind hopening
    have hclose : closing.kind = b.closing.kind := congrArg Symbol.kind hclosing
    have hinner : ∀ openers, nestAll? openers inner = some openers := fun openers =>
      h.nested inner openers hinner
    have htail : nestAll? openers tokens = some openers := h'.nested tokens openers hsymbols
    cases b <;> simp [Token.nest?, hopen, hclose, nestAll?_append, hinner, htail, Bracket.opening,
      Bracket.closing, Symbol.mark]

end Spelling

/-! ## Lines -/

section

variable {lines : List (List Char)} {spellings : List (List Symbol)}

theorem Reading.ofLines_scanned (h : List.Forall₂ Scanned lines spellings) (tab : TabStop)
    (number : Nat) : ∃ tokens, Reading.ofLines tab number lines = { tokens, fault := none } ∧
      tokens.map Token.symbol = spellings.flatten := by
  induction h generalizing number with
  | nil => exact ⟨[], rfl, rfl⟩
  | cons hline _ ih =>
    obtain ⟨tokens, heq, hsymbols⟩ := hline.ofLine tab number 0
    obtain ⟨tokens', heq', hsymbols'⟩ := ih (number + 1)
    refine ⟨tokens ++ tokens', ?_, ?_⟩
    · rw [Reading.ofLines, heq, heq']
      rfl
    · rw [List.map_append, hsymbols, hsymbols', List.flatten_cons]

theorem lines_scanned (h : List.Forall₂ Scanned lines spellings) :
    Text.lines lines.flatten = lines := by
  refine Text.isLines_iff.1 ?_
  induction h with
  | nil => exact .nil
  | cons hline _ ih =>
    obtain ⟨body, rfl, hbody⟩ := hline.exists_body
    exact .cons hbody (.inl rfl) ih

theorem getLast?_scanned (h : List.Forall₂ Scanned lines spellings) (hne : lines ≠ []) :
    lines.flatten.getLast? = some '\n' := by
  induction h with
  | nil => exact absurd rfl hne
  | @cons line _ lines _ hline _ ih =>
    obtain ⟨body, rfl, -⟩ := hline.exists_body
    rw [List.flatten_cons, List.getLast?_append]
    rcases eq_or_ne lines [] with rfl | hmore
    · simp
    · rw [ih hmore]
      rfl

/-- The tokens that a scan lists are the next ones. -/
theorem Lexer.lists_toEnd (lexer : Lexer) : Lists lexer.item 0 lexer.toEnd.tokens := by
  obtain ⟨wall, -, hends⟩ := lexer.exists_endsAt
  refine lists_of_getElem? fun i t hi => ?_
  rw [Nat.zero_add]
  exact ((hends.toEnd_eq.2.2 i t).1 hi).2

/-- The line that a piece is all of. -/
theorem Spelling.line {text : List Char} {symbols : List Symbol} (h : Spelling text symbols) :
    Scanned (text ++ ['\n']) (symbols ++ [.newline]) :=
  h.scanned _ _ (endsWord_cons rfl []) .newline

theorem nestAll?_lines (h : List.Forall₂ Spelling lines spellings) {tokens : List Token}
    (heq : tokens.map Token.symbol = spellings.flatMap (· ++ [.newline])) (openers : List Token) :
    nestAll? openers tokens = some openers := by
  induction h generalizing tokens with
  | nil =>
    obtain rfl := List.map_eq_nil_iff.1 heq
    rfl
  | cons hline _ ih =>
    obtain ⟨first, rest, rfl, hfirst, hrest⟩ := List.map_eq_append_iff.1 heq
    obtain ⟨before, last, rfl, hbefore, hlast⟩ := List.map_eq_append_iff.1 hfirst
    obtain ⟨t, rfl, ht⟩ := List.map_eq_singleton_iff.1 hlast
    have hkind : t.kind = .newline := congrArg Symbol.kind ht
    simp [nestAll?_append, hline.nested before openers hbefore, Token.nest?, hkind, ih hrest]

/-- A lexer gives the symbols of lines, each with a newline behind it, and then the end marker. -/
theorem Lexer.shows_lines {text : String} (name : String) (tab : TabStop)
    (h : List.Forall₂ Spelling lines spellings) (hne : lines ≠ [])
    (htext : text.toList = lines.flatMap (· ++ ['\n'])) :
    let items := (ofSource (.ofText name text tab)).item
    let symbols := spellings.flatMap (· ++ [.newline])
    Shows items 0 symbols ∧ Sees items symbols.length (· = .endMarker) := by
  intro items symbols
  have hscanned :
      List.Forall₂ Scanned (lines.map (· ++ ['\n'])) (spellings.map (· ++ [.newline])) :=
    List.forall₂_map_left_iff.2 (List.forall₂_map_right_iff.2 (h.imp fun _ _ => Spelling.line))
  obtain ⟨tokens, hreading, hsymbols⟩ := Reading.ofLines_scanned hscanned tab 1
  have hcheck : (Reading.ofText text tab).check [] = { tokens, fault := none } := by
    rw [Reading.ofText, htext, List.flatMap_def, lines_scanned hscanned, hreading]
    exact Reading.check_of_some (r := { tokens, fault := none }) (nestAll?_lines h hsymbols [])
  have hlacks : (!text.toList.getLast?.any Text.isLineBreak) = false := by
    rw [htext, List.flatMap_def, getLast?_scanned hscanned (by simpa using hne)]
    rfl
  have hgives := gives_ofText name text tab
  rw [hcheck, hlacks] at hgives
  obtain ⟨-, newline, mark, -, hmark, htokens⟩ := hgives
  have hlists : Lists items 0 (tokens ++ [mark]) :=
    htokens ▸ (ofSource (.ofText name text tab)).lists_toEnd
  obtain ⟨hlists, hitem, -⟩ := lists_append.1 hlists
  have hlength : tokens.length = symbols.length := by
    rw [show symbols = tokens.map Token.symbol from hsymbols.symm, List.length_map]
  rw [Nat.zero_add, hlength] at hitem
  exact ⟨shows_iff_lists.2 ⟨tokens, hsymbols, hlists⟩, mark, hitem, hmark⟩

end

end OpticScript
