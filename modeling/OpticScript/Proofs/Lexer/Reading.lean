import OpticScript.Proofs.Lexer.Regular

/-!
# Reading without brackets

The tokens of some lines, when brackets are left out of account (`Reading.ofLines`), go up to
the first place where no token begins and to the first number that is too large. The open
brackets are kept track of token by token (`Token.nest?`). A reading that is checked for them
(`Reading.check`) ends before the first bracket that does not fit, and something is wrong with
it too if a bracket is open at its end.

A lexer gives the tokens of the checked reading of its lines, fails as that does, and otherwise
ends with a newline, unless the last line has one, and the end marker (`Lexer.Gives`,
`Lexer.gives_ofText`).
-/

namespace OpticScript

/-- The token of this kind and text behind so many columns of a line. -/
def Token.placed (tab : TabStop) (number : Nat) (column : UInt64) (kind : TokenKind)
    (text : List Char) : Token :=
  .ofText kind (String.ofList text) number (column + 1) (column + tab.span text + 1)

/-- The open brackets after a token, unless it closes a bracket that is not the innermost open
one. -/
def Token.nest? (t : Token) (openers : List Token) : Option (List Token) :=
  match t.kind, openers with
  | .leftBracket, _ | .leftParen, _ => some (t :: openers)
  | .rightBracket, innermost :: outer => if innermost.kind = .leftBracket then some outer else none
  | .rightParen, innermost :: outer => if innermost.kind = .leftParen then some outer else none
  | .rightBracket, [] | .rightParen, [] => none
  | _, _ => some openers

/-- Tokens, and what is wrong behind them. -/
structure Reading where
  tokens : List Token
  fault : Option Blame

namespace Reading

def empty : Reading := { tokens := [], fault := none }

def faulty (cause : Cause) (token : Token) : Reading :=
  { tokens := [], fault := some { cause, token } }

def cons (t : Token) (r : Reading) : Reading := { r with tokens := t :: r.tokens }

/-- One reading and then another one, unless something is wrong with the first. -/
def append (r r' : Reading) : Reading :=
  if r.fault.isSome then r else { r' with tokens := r.tokens ++ r'.tokens }

/-- The tokens of what is left of a line behind so many columns. -/
def ofLine (tab : TabStop) (number : Nat) (column : UInt64) : List Char → Reading
  | [] => empty
  | c :: tail =>
    if Lexer.isBlank c then ofLine tab number (column + tab.columns c) tail
    else match Lexeme.scan? (c :: tail) with
      | none =>
        faulty (.illegalCharacter c) (.placed tab number column .error (Text.body (c :: tail)))
      | some lexeme =>
        let text := (c :: tail).take lexeme.size
        let token := Token.placed tab number column lexeme.kind text
        match Lexeme.literal? lexeme.kind text with
        | none => faulty .invalidNumber token
        | some literal =>
          (ofLine tab number (column + tab.span text) ((c :: tail).drop lexeme.size)).cons
            (token.withLiteral literal)
termination_by text => text.length
decreasing_by
  · simp
  · have := lexeme.size_pos
    simp only [List.length_drop, List.length_cons]
    omega

/-- The tokens of lines, the first of which has this number. -/
def ofLines (tab : TabStop) (number : Nat) : List (List Char) → Reading
  | [] => empty
  | line :: more => (ofLine tab number 0 line).append (ofLines tab (number + 1) more)

/-- The tokens of a text. -/
def ofText (text : String) (tab : TabStop) : Reading := ofLines tab 1 (Text.lines text.toList)

/-- The tokens up to the first bracket that does not fit, when these brackets are open before
them. -/
def checkFrom (fault : Option Blame) : List Token → List Token → Reading
  | openers, [] =>
    { tokens := [], fault := fault.or (openers.getLast?.map fun opener =>
        { cause := .unclosed opener.text, token := opener }) }
  | openers, t :: tokens =>
    match t.nest? openers with
    | some openers => (checkFrom fault openers tokens).cons t
    | none => faulty (.extraneous t.text) t

/-- The reading up to the first bracket that does not fit. -/
def check (r : Reading) (openers : List Token) : Reading := checkFrom r.fault openers r.tokens

section

variable {tab : TabStop} {number : Nat} {column : UInt64} {r r' : Reading} {t : Token}

@[simp] theorem empty_append (r : Reading) : empty.append r = r := rfl

@[simp] theorem append_empty (r : Reading) : r.append empty = r := by
  obtain ⟨tokens, fault⟩ := r
  cases fault <;> simp [append, empty]

@[simp] theorem faulty_append (cause : Cause) (t : Token) (r : Reading) :
    (faulty cause t).append r = faulty cause t := rfl

@[simp] theorem cons_append (t : Token) (r r' : Reading) :
    (r.cons t).append r' = (r.append r').cons t := by
  unfold append cons
  split <;> rfl

@[simp] theorem ofLine_nil : ofLine tab number column [] = empty := by
  rw [ofLine]

theorem ofLine_blanks (text : List Char) : ofLine tab number column text =
    ofLine tab number (column + tab.span (text.takeWhile Lexer.isBlank))
      (text.dropWhile Lexer.isBlank) := by
  induction text generalizing column with
  | nil => rw [List.takeWhile_nil, List.dropWhile_nil, TabStop.span_nil, UInt64.add_zero]
  | cons c tail ih =>
    by_cases hc : Lexer.isBlank c
    · have hspan : tab.span ((c :: tail).takeWhile Lexer.isBlank) =
          tab.columns c + tab.span (tail.takeWhile Lexer.isBlank) := by
        rw [List.takeWhile_cons_of_pos hc]
        rfl
      rw [ofLine, if_pos hc, ih, hspan, List.dropWhile_cons_of_pos hc, UInt64.add_assoc]
    · rw [List.takeWhile_cons_of_neg hc, List.dropWhile_cons_of_neg hc, TabStop.span_nil,
        UInt64.add_zero]

theorem ofLine_cons {c : Char} {tail : List Char} (hc : Lexer.isBlank c = false)
    {lexeme : Lexeme} (hscan : Lexeme.scan? (c :: tail) = some lexeme) {literal : Literal}
    (hliteral : Lexeme.literal? lexeme.kind ((c :: tail).take lexeme.size) = some literal) :
    ofLine tab number column (c :: tail) =
      (ofLine tab number (column + tab.span ((c :: tail).take lexeme.size))
        ((c :: tail).drop lexeme.size)).cons
      ((Token.placed tab number column lexeme.kind ((c :: tail).take lexeme.size)).withLiteral
        literal) := by
  rw [ofLine, if_neg (by simp [hc])]
  simp only [hscan, hliteral]

end

end Reading

/-! ## Lexers -/

namespace Lexer

/-- The lexer has yet to read what is left of its line and these lines, the tokens of which are
those of `r`. `lacks` says whether the last line has no end. -/
structure Ahead (lexer : Lexer) (texts : List (List Char)) (r : Reading) (lacks : Bool) : Prop where
  unread_eq : lexer.unread = texts.map Piece.line
  reading_eq : r =
    if lexer.rest = [] then Reading.ofLines lexer.tab lexer.line texts
    else (Reading.ofLine lexer.tab lexer.line lexer.column lexer.rest).append
      (Reading.ofLines lexer.tab (lexer.line + 1) texts)
  lacks_eq : lacks = match texts.getLast? with
    | some text => !text.getLast?.any Text.isLineBreak
    | none => lexer.unterminated

section

variable {lexer after : Lexer} {texts : List (List Char)} {r r' : Reading}
  {lacks : Bool} {t : Token}

theorem Ahead.texts_eq_nil (h : lexer.Ahead texts r lacks) (hunread : lexer.unread = []) :
    texts = [] :=
  List.map_eq_nil_iff.1 (h.unread_eq.symm.trans hunread)

theorem Ahead.withOpeners (h : lexer.Ahead texts r lacks) (openers : List Token) :
    { lexer with openers }.Ahead texts r lacks :=
  ⟨h.unread_eq, h.reading_eq, h.lacks_eq⟩

theorem Ahead.skipBlanks (h : lexer.Ahead texts r lacks) (hlexer : lexer.Regular) :
    lexer.skipBlanks.Ahead texts r lacks where
  unread_eq := h.unread_eq
  reading_eq := by
    by_cases hrest : lexer.rest = []
    · have hskipped : lexer.skipBlanks.rest = [] := by rw [rest_skipBlanks, hrest]; rfl
      rw [h.reading_eq, if_pos hrest, if_pos hskipped]
      rfl
    · rw [h.reading_eq, if_neg hrest, Reading.ofLine_blanks]
      by_cases hskipped : lexer.skipBlanks.rest = []
      · -- only the last line of all can end in blanks
        have hunread : lexer.unread = [] := by
          by_contra hne
          have hnext : lexer.line = lexer.lines.size + 1 := hlexer.skipBlanks.next_line hskipped hne
          have hcurrent := hlexer.line_eq hrest
          omega
        rw [if_pos hskipped, show lexer.rest.dropWhile isBlank = [] from hskipped,
          h.texts_eq_nil hunread]
        simp [Reading.ofLines]
      · rw [if_neg hskipped]
        rfl
  lacks_eq := h.lacks_eq

theorem Ahead.enterLine {text : List Char} {more : List Piece} (h : lexer.Ahead texts r lacks)
    (hlexer : lexer.Regular) (hrest : lexer.rest = [])
    (hunread : lexer.unread = .line text :: more) :
    ∃ texts', ({ lexer with unread := more }.enterLine text).Ahead texts' r lacks := by
  obtain ⟨text', htext, hne, -⟩ := hlexer.lines_unread (.line text) (by simp [hunread])
  obtain rfl := Piece.line.inj htext
  obtain ⟨text', texts', rfl, htext, hmore⟩ :=
    List.map_eq_cons_iff.1 (h.unread_eq.symm.trans hunread)
  obtain rfl := Piece.line.inj htext
  refine ⟨texts', hmore.symm, ?_, ?_⟩
  · rw [h.reading_eq, if_pos hrest]
    exact (if_neg hne).symm
  · rw [h.lacks_eq, List.getLast?_cons]
    cases texts'.getLast? <;> rfl

/-- The lexer behind a lexeme has read the token of it. -/
theorem Ahead.behind (h : lexer.Ahead texts r lacks) (hlexer : lexer.Regular) {c : Char}
    {tail : List Char} (hrest : lexer.rest = c :: tail) (hc : isBlank c = false) {lexeme : Lexeme}
    (hscan : Lexeme.scan? lexer.rest = some lexeme) {literal : Literal}
    (hliteral : Lexeme.literal? lexeme.kind (lexer.rest.take lexeme.size) = some literal) :
    ∃ r', r = r'.cons
        ((lexer.tokenHere lexeme.kind (lexer.rest.take lexeme.size)).withLiteral literal) ∧
      (lexer.behind lexeme).Ahead texts r' lacks := by
  have hne : lexer.rest ≠ [] := by simp [hrest]
  refine ⟨(Reading.ofLine lexer.tab lexer.line
    (lexer.column + lexer.tab.span (lexer.rest.take lexeme.size))
    (lexer.rest.drop lexeme.size)).append (Reading.ofLines lexer.tab (lexer.line + 1) texts), ?_,
    h.unread_eq, ?_, h.lacks_eq⟩
  · rw [h.reading_eq, if_neg hne, hrest,
      Reading.ofLine_cons hc (hrest ▸ hscan) (hrest ▸ hliteral), Reading.cons_append]
    rfl
  · have hbehind := hlexer.behind hne hscan
    rw [rest_behind]
    by_cases hdrop : lexer.rest.drop lexeme.size = []
    · rw [if_pos hdrop, hdrop, Reading.ofLine_nil, Reading.empty_append]
      by_cases hnewline : lexeme.kind = .newline
      · have hline : (lexer.behind lexeme).line = lexer.line + 1 := if_pos hnewline
        rw [hline]
        rfl
      · -- only the last line of all has no end
        have hline : (lexer.behind lexeme).line = lexer.line := if_neg hnewline
        have hunread : lexer.unread = [] := by
          by_contra hmore
          have hnext : (lexer.behind lexeme).line = lexer.lines.size + 1 :=
            hbehind.next_line ((rest_behind lexer lexeme).trans hdrop) hmore
          have hcurrent := hlexer.line_eq hne
          omega
        rw [h.texts_eq_nil hunread]
        rfl
    · have hnewline : lexeme.kind ≠ .newline := by
        rcases Lexeme.scan_line hlexer.rest hne hscan with ⟨-, -, hsize⟩ | ⟨-, hnewline, -⟩
        · exact absurd (hsize ▸ List.drop_length) hdrop
        · exact hnewline
      have hline : (lexer.behind lexeme).line = lexer.line := if_neg hnewline
      rw [if_neg hdrop, hline]
      rfl

/-- The lexer behind a token, but for the brackets. -/
def pass (lexer : Lexer) (t : Token) (text : List Char) : Lexer :=
  { lexer.advance text with line := if t.kind = .newline then lexer.line + 1 else lexer.line }

/-- A token is accepted if it fits to the open brackets. -/
theorem accept_eq (lexer : Lexer) (t : Token) (text : List Char) : lexer.accept t text =
    match t.nest? lexer.openers with
    | some openers => (.ok t, { lexer.pass t text with openers })
    | none => { lexer with openers := lexer.openers.tail }.refuse (.extraneous t.text) t := by
  unfold accept Token.nest?
  cases hkind : t.kind with
  | rightBracket | rightParen =>
    rcases hopeners : lexer.openers with _ | ⟨innermost, outer⟩
    · have hsame : { lexer with openers := [] } = lexer := by rw [← hopeners]
      simp only [close, hopeners, List.tail_nil, hsame]
    · simp only [close, hopeners]
      split <;> simp [pass, advance, hkind]
  | _ => rcases hopeners : lexer.openers with _ | _ <;> simp [pass, advance, hopeners, hkind]

/-- What comes next of a reading : the lexer is at the end, or refuses what is wrong, or comes to
the first token. -/
theorem Regular.nextToken_ahead (hlexer : lexer.Regular) (h : lexer.Ahead texts r lacks) :
    (∃ start : Lexer, r = .empty ∧ start.rest = [] ∧ start.unread = [] ∧
      start.openers = lexer.openers ∧ start.unterminated = lacks ∧
      lexer.nextToken = start.finish) ∨
    (∃ start : Lexer, ∃ cause t, r = .faulty cause t ∧ lexer.nextToken = start.refuse cause t) ∨
    ∃ start : Lexer, ∃ t : Token, ∃ text texts', ∃ r' : Reading, r = r'.cons t ∧
      t.kind ≠ .endMarker ∧ start.openers = lexer.openers ∧ lexer.nextToken = start.accept t text ∧
      (start.pass t text).Ahead texts' r' lacks := by
  obtain ⟨start, hstart, ⟨hopeners, texts, hahead⟩, ⟨c, tail, hrest, hc, hreply⟩ |
      ⟨hrest, hunread, hreply⟩⟩ :=
    hlexer.nextToken_of_kept (P := fun start => start.openers = lexer.openers ∧
        ∃ texts, start.Ahead texts r lacks)
      ⟨rfl, texts, h⟩
      (fun hstart h => ⟨h.1, h.2.imp fun _ hahead => hahead.skipBlanks hstart⟩)
      (fun hstart h hrest hunread => by
        obtain ⟨hopeners, texts, hahead⟩ := h
        exact ⟨hopeners, hahead.enterLine hstart hrest hunread⟩)
  · refine .inr ?_
    have hne : start.rest ≠ [] := by simp [hrest]
    have hreading := hahead.reading_eq
    rw [if_neg hne, hrest, Reading.ofLine, if_neg (by simp [hc])] at hreading
    rcases hlexeme : Lexeme.scan? start.rest with _ | lexeme
    · refine .inl ⟨start, .illegalCharacter c, _, ?_, hreply.trans (scan_of_none hlexeme c)⟩
      rw [← hrest, hlexeme] at hreading
      exact hreading
    rcases hliteral : Lexeme.literal? lexeme.kind (start.rest.take lexeme.size) with _ | literal
    · refine .inl ⟨start, .invalidNumber, _, ?_,
        hreply.trans (scan_of_no_literal hlexeme hliteral c)⟩
      rw [← hrest] at hreading
      simp only [hlexeme, hliteral] at hreading
      exact hreading
    · obtain ⟨r', rfl, hbehind⟩ := hahead.behind hstart hrest hc hlexeme hliteral
      have hmarker : lexeme.kind ≠ .endMarker := by
        rcases Lexeme.scan_line hstart.rest hne hlexeme with ⟨-, hnewline, -⟩ | ⟨-, -, hmarker⟩
        · simp [hnewline]
        · exact hmarker
      exact .inr ⟨start, _, _, texts, r', rfl, hmarker, hopeners,
        hreply.trans (scan_of_literal hlexeme hliteral c), hbehind⟩
  · have htexts := hahead.texts_eq_nil hunread
    refine .inl ⟨start, ?_, hrest, hunread, hopeners, ?_, hreply⟩
    · rw [hahead.reading_eq, if_pos hrest, htexts]
      rfl
    · rw [hahead.lacks_eq, htexts]
      rfl

/-! ## Whole texts -/

/-- The lexer gives the tokens of this reading and fails as it does. If it does not fail, there
is a newline of no text in the end, if the last line lacks one, and the end marker. -/
structure Gives (lexer : Lexer) (c : Reading) (lacks : Bool) : Prop where
  failure_eq : lexer.toEnd.failure =
    c.fault.map fun blame => .located (lexer.toEnd.final.blame blame.cause blame.token)
  tokens_eq : ∃ newline mark : Token, newline.kind = .newline ∧ mark.kind = .endMarker ∧
    lexer.toEnd.tokens =
      c.tokens ++ if c.fault.isSome then [] else (if lacks then [newline] else []) ++ [mark]

theorem Gives.of_refuse {start : Lexer} {cause : Cause}
    (h : lexer.nextToken = start.refuse cause t) : lexer.Gives (.faulty cause t) lacks := by
  have hitem : lexer.item 0 = .error (.located (start.blame cause t)) := by
    rw [item_eq_error_iff, after, h]
    rfl
  have hafter : lexer.after 1 = start := by
    rw [after, after, h]
    rfl
  rw [← hafter] at hitem
  refine ⟨?_, .synthetic .newline 1 1, .synthetic .endMarker 1 1, rfl, rfl, ?_⟩
  · rw [toEnd_of_error hitem]
    rfl
  · rw [toEnd_of_error hitem]
    rfl

theorem Gives.cons (hitem : lexer.item 0 = .ok (some t)) (hkind : t.kind ≠ .endMarker)
    (h : (lexer.after 1).Gives r lacks) : lexer.Gives (r.cons t) lacks := by
  obtain ⟨hfailure, newline, mark, hnewline, hmark, htokens⟩ := h
  refine ⟨?_, newline, mark, hnewline, hmark, ?_⟩
  · rw [toEnd_of_token hitem hkind]
    exact hfailure
  · rw [toEnd_of_token hitem hkind, htokens]
    rfl

theorem Gives.of_endMarker (hitem : lexer.item 0 = .ok (some t)) (hkind : t.kind = .endMarker) :
    lexer.Gives .empty false := by
  refine ⟨?_, .synthetic .newline 1 1, t, rfl, hkind, ?_⟩
  · rw [toEnd_of_endMarker hitem hkind]
    rfl
  · rw [toEnd_of_endMarker hitem hkind]
    rfl

/-- At the end of the lines a bracket may be open. -/
theorem Gives.of_finish {start : Lexer} (hrest : start.rest = []) (hunread : start.unread = [])
    (h : lexer.nextToken = start.finish) :
    lexer.Gives (Reading.empty.check start.openers) start.unterminated := by
  obtain ⟨opener, hlast, heq⟩ | ⟨hnil, hu, heq⟩ | ⟨hnil, hu, heq⟩ := start.finish_cases <;>
    rw [heq] at h
  · have hcheck : Reading.empty.check start.openers = .faulty (.unclosed opener.text) opener := by
      simp [Reading.check, Reading.checkFrom, Reading.empty, Reading.faulty, hlast]
    rw [hcheck]
    exact .of_refuse h
  · rw [hnil, hu]
    -- a newline, after which there is nothing but the end marker
    obtain ⟨hitem, hafter⟩ := item_zero_of_nextToken h
    have hnext : (lexer.after 1).nextToken = (lexer.after 1).skipBlanks.finish := by
      rw [hafter, nextToken, show Lexer.unread _ = [] from hunread, nextTokenFrom_nil]
      rw [rest_skipBlanks, show Lexer.rest _ = [] from hrest]
      rfl
    have hfinish : (lexer.after 1).skipBlanks.finish =
        (.ok (.synthetic .endMarker (start.line + 1) 1), (lexer.after 1).skipBlanks) := by
      rw [hafter]
      simp [finish, Lexer.skipBlanks, hnil]
    obtain ⟨hmark, -⟩ := item_zero_of_nextToken (hnext.trans hfinish)
    refine ⟨?_, .synthetic .newline start.line (start.column + 1),
      .synthetic .endMarker (start.line + 1) 1, rfl, rfl, ?_⟩
    · rw [toEnd_of_token hitem (by simp [Token.synthetic]), toEnd_of_endMarker hmark rfl]
      rfl
    · rw [toEnd_of_token hitem (by simp [Token.synthetic]), toEnd_of_endMarker hmark rfl]
      rfl
  · rw [hnil, hu]
    exact .of_endMarker (item_zero_of_nextToken h).1 rfl

/-- What a lexer gives is what it is yet to read, checked for brackets. -/
theorem Regular.gives_ahead (hlexer : lexer.Regular) (h : lexer.Ahead texts r lacks) :
    lexer.Gives (r.check lexer.openers) lacks := by
  induction htokens : r.tokens generalizing lexer texts r with
  | nil =>
    rcases hlexer.nextToken_ahead h with ⟨start, rfl, hrest, hunread, hopeners, rfl, hnext⟩ |
      ⟨start, cause, t, rfl, hnext⟩ | ⟨start, t, text, texts', r', rfl, -⟩
    · exact hopeners ▸ .of_finish hrest hunread hnext
    · exact .of_refuse hnext
    · simp [Reading.cons] at htokens
  | cons t tokens ih =>
    rcases hlexer.nextToken_ahead h with ⟨start, rfl, -⟩ | ⟨start, cause, t, rfl, -⟩ |
      ⟨start, t', text, texts', r', rfl, hkind, hopeners, hnext, hahead⟩
    · simp [Reading.empty] at htokens
    · simp [Reading.faulty] at htokens
    · obtain ⟨rfl, hr'⟩ := List.cons.inj htokens
      rw [accept_eq, hopeners] at hnext
      rcases hnest : t'.nest? lexer.openers with _ | openers
      · have hcheck : (r'.cons t').check lexer.openers = .faulty (.extraneous t'.text) t' := by
          simp [Reading.check, Reading.checkFrom, Reading.cons, hnest]
        rw [hnest] at hnext
        rw [hcheck]
        exact .of_refuse hnext
      · have hcheck : (r'.cons t').check lexer.openers = (r'.check openers).cons t' := by
          simp [Reading.check, Reading.checkFrom, Reading.cons, hnest]
        rw [hnest] at hnext
        obtain ⟨hitem, hafter⟩ := item_zero_of_nextToken hnext
        have hgives := ih (hlexer.after 1) (hafter ▸ hahead.withOpeners openers) hr'
        rw [hafter] at hgives
        exact hcheck ▸ .cons hitem hkind (hafter ▸ hgives)

end

theorem getLast?_lines (text : List Char) :
    text.getLast? = (Text.lines text).getLast?.bind List.getLast? := by
  rcases hlines : (Text.lines text).getLast? with _ | line
  · rw [Text.lines_eq_nil (List.getLast?_eq_none_iff.1 hlines)]
    rfl
  · have hne : line ≠ [] := Text.ne_nil_of_mem_lines (List.mem_of_getLast? hlines)
    obtain ⟨before, hbefore⟩ := List.getLast?_eq_some_iff.1 hlines
    rw [← Text.flatten_lines text, hbefore, List.flatten_append, List.flatten_singleton,
      List.getLast?_append_of_ne_nil _ hne]
    rfl

/-- A lexer gives the tokens of a text, checked for brackets. -/
theorem gives_ofText (name text : String) (tab : TabStop) :
    (ofSource (.ofText name text tab)).Gives ((Reading.ofText text tab).check [])
      (!text.toList.getLast?.any Text.isLineBreak) := by
  have hahead : (ofSource (.ofText name text tab)).Ahead (Text.lines text.toList)
      (Reading.ofText text tab) (!text.toList.getLast?.any Text.isLineBreak) := by
    refine ⟨rfl, rfl, ?_⟩
    rw [getLast?_lines]
    cases (Text.lines text.toList).getLast? <;> rfl
  exact (regular_ofSource name text tab).gives_ahead hahead

end Lexer

end OpticScript
