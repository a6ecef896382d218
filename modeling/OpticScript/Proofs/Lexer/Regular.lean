import OpticScript.Proofs.Lexer.Lines
import OpticScript.Proofs.Lexer.Stream

/-!
# The lines of a lexer

A lexer of a text reads it line by line (`Lexer.Regular`) : the lines that are not read
are lines, only the last of all may be unterminated, and the number of the next token is
that of the line it stands on. Every request keeps that (`Regular.gives_nextToken`), and all it
does to the lines is to read some more of them (`Lexer.Onward`).

A request skips blanks and enters lines, and then it scans a text or comes to the end
(`nextTokenFrom_cases`). So the next token is either the first one of a line that has not been
used up, or what comes when everything is (`Regular.nextToken_of_kept`). An error is one of the
lexer and stands on a line that has been read (`Regular.item_error`), and a token opens or
closes a bracket or does neither (`Token.nesting`).

Two lexers that keep in step over their blanks and their lines (`Lexer.InStep`) answer a
request alike (`InStep.nextTokenFrom`).
-/

namespace OpticScript

namespace Lexer

/-- The state of a lexer that reads the lines of a text. -/
structure Regular (lexer : Lexer) : Prop where
  lines_unread : ∀ piece ∈ lexer.unread, ∃ text, piece = .line text ∧ text ≠ [] ∧ Text.IsLine text
  ended_unread : ∀ text, .line text ∈ lexer.unread.dropLast → Text.EndsLine text
  rest : Text.IsLine lexer.rest
  ended_rest : lexer.unread ≠ [] → lexer.rest ≠ [] → Text.EndsLine lexer.rest
  line_pos : 1 ≤ lexer.line
  line_eq : lexer.rest ≠ [] → lexer.line = lexer.lines.size
  next_line : lexer.rest = [] → lexer.unread ≠ [] → lexer.line = lexer.lines.size + 1
  openers : ∀ opener ∈ lexer.openers, 1 ≤ opener.line ∧ opener.line ≤ lexer.lines.size
  terminated : lexer.unread ≠ [] → lexer.unterminated = true → lexer.lines = #[]

/-- The lexer has read some more lines. -/
structure Onward (lexer after : Lexer) : Prop where
  source_eq : after.source = lexer.source
  tab_eq : after.tab = lexer.tab
  read : ∃ texts : List (List Char), lexer.unread = texts.map Piece.line ++ after.unread ∧
    after.lines.toList = lexer.lines.toList ++ texts.map String.ofList

theorem Onward.refl (lexer : Lexer) : lexer.Onward lexer := ⟨rfl, rfl, [], by simp, by simp⟩

theorem Onward.of_eq {lexer after : Lexer} (hsource : after.source = lexer.source)
    (htab : after.tab = lexer.tab) (hunread : after.unread = lexer.unread)
    (hlines : after.lines = lexer.lines) : lexer.Onward after :=
  ⟨hsource, htab, [], by simp [hunread], by simp [hlines]⟩

theorem Onward.trans {first second third : Lexer} (h : first.Onward second)
    (h' : second.Onward third) : first.Onward third := by
  obtain ⟨texts, hunread, hlines⟩ := h.read
  obtain ⟨texts', hunread', hlines'⟩ := h'.read
  refine ⟨h'.source_eq.trans h.source_eq, h'.tab_eq.trans h.tab_eq, texts ++ texts', ?_, ?_⟩
  · rw [hunread, hunread', List.map_append, List.append_assoc]
  · rw [hlines', hlines, List.append_assoc, List.map_append]

theorem Onward.size_le {lexer after : Lexer} (h : lexer.Onward after) :
    lexer.lines.size ≤ after.lines.size := by
  obtain ⟨texts, -, hlines⟩ := h.read
  rw [← Array.length_toList, ← Array.length_toList, hlines, List.length_append]
  exact Nat.le_add_right _ _

/-- The lines that are read and those that are not are always as many. -/
theorem Onward.count {lexer after : Lexer} (h : lexer.Onward after) :
    after.lines.size + after.unread.length = lexer.lines.size + lexer.unread.length := by
  obtain ⟨texts, hunread, hlines⟩ := h.read
  rw [← Array.length_toList, ← Array.length_toList, hlines, hunread]
  simp only [List.length_append, List.length_map]
  omega

section

variable {lexer after : Lexer}

/-! ## Blanks and lines -/

theorem blanks_le_bodyLength (text : List Char) :
    (text.takeWhile isBlank).length ≤ Text.bodyLength text :=
  Text.takeWhile_length_le_bodyLength (fun _ => Text.isLineBreak_of_isBlank) text

theorem rest_skipBlanks (lexer : Lexer) :
    lexer.skipBlanks.rest = lexer.rest.drop (lexer.rest.takeWhile isBlank).length := by
  have happ := List.takeWhile_append_dropWhile (p := isBlank) (l := lexer.rest)
  calc lexer.rest.dropWhile isBlank
      = (lexer.rest.takeWhile isBlank ++ lexer.rest.dropWhile isBlank).drop
          (lexer.rest.takeWhile isBlank).length := List.drop_left.symm
    _ = lexer.rest.drop (lexer.rest.takeWhile isBlank).length := by rw [happ]

theorem Regular.skipBlanks (h : lexer.Regular) : lexer.skipBlanks.Regular where
  lines_unread := h.lines_unread
  ended_unread := h.ended_unread
  rest := by
    rw [rest_skipBlanks]
    exact h.rest.drop (blanks_le_bodyLength _)
  ended_rest hunread hrest := by
    rw [rest_skipBlanks] at hrest ⊢
    exact (h.ended_rest hunread (by rintro hnil; simp [hnil] at hrest)).drop hrest
  line_pos := h.line_pos
  line_eq hrest := h.line_eq (by rintro hnil; simp [rest_skipBlanks, hnil] at hrest)
  next_line hrest hunread := by
    refine h.next_line ?_ hunread
    by_contra hne
    -- a line break is no blank
    have hlt := (h.ended_rest hunread hne).bodyLength_lt
    have hle := blanks_le_bodyLength lexer.rest
    rw [rest_skipBlanks, List.drop_eq_nil_iff] at hrest
    omega
  openers := h.openers
  terminated := h.terminated

theorem Regular.enterLine {text : List Char} {more : List Piece} (h : lexer.Regular)
    (hrest : lexer.rest = []) (hunread : lexer.unread = .line text :: more) :
    ({ lexer with unread := more }.enterLine text).Regular := by
  obtain ⟨text', htext, hne, hline⟩ := h.lines_unread (.line text) (by simp [hunread])
  obtain rfl := Piece.line.inj htext
  have hended : more ≠ [] → Text.EndsLine text := fun hmore =>
    h.ended_unread text (by simp [hunread, List.dropLast_cons_of_ne_nil hmore])
  have hnext : lexer.line = lexer.lines.size + 1 := h.next_line hrest (by simp [hunread])
  have hsize : (lexer.lines.push (String.ofList text)).size = lexer.lines.size + 1 := by simp
  exact {
    lines_unread := fun piece hp => h.lines_unread piece (hunread ▸ List.mem_cons_of_mem _ hp)
    ended_unread := fun t ht => h.ended_unread t (by
      rcases more with _ | ⟨next, more⟩
      · exact absurd ht (List.not_mem_nil)
      · rw [hunread, List.dropLast_cons_cons]
        exact List.mem_cons_of_mem _ ht)
    rest := hline
    ended_rest := fun hmore _ => hended hmore
    line_pos := h.line_pos
    line_eq := fun _ => hnext.trans hsize.symm
    next_line := fun hnil => absurd hnil hne
    openers := fun opener ho =>
      ⟨(h.openers opener ho).1, hsize ▸ Nat.le_succ_of_le (h.openers opener ho).2⟩
    terminated := fun hmore hu => by
      have hlast : text.getLast?.any Text.isLineBreak = true := hended hmore
      simp [Lexer.enterLine, hlast] at hu }

/-! ## Tokens -/

theorem Regular.withOpeners {openers : List Token} (h : lexer.Regular)
    (ho : ∀ opener ∈ openers, 1 ≤ opener.line ∧ opener.line ≤ lexer.lines.size) :
    { lexer with openers := openers }.Regular :=
  { h with openers := ho }

/-- A lexeme within the line leaves a rest of the line. -/
theorem Regular.advance {n : Nat} (h : lexer.Regular) (hn : n ≤ Text.bodyLength lexer.rest)
    (hne : lexer.rest ≠ []) : (lexer.advance (lexer.rest.take n)).Regular := by
  have hlength : (lexer.rest.take n).length = n :=
    List.length_take_of_le (hn.trans (Text.bodyLength_le_length _))
  have hrest : (lexer.advance (lexer.rest.take n)).rest = lexer.rest.drop n := by
    rw [Lexer.advance, hlength]
  exact {
    lines_unread := h.lines_unread
    ended_unread := h.ended_unread
    rest := hrest ▸ h.rest.drop hn
    ended_rest := fun hunread hnil => by
      rw [hrest] at hnil ⊢
      exact (h.ended_rest hunread hne).drop hnil
    line_pos := h.line_pos
    line_eq := fun _ => h.line_eq hne
    next_line := fun hnil hunread => by
      have hlt := (h.ended_rest hunread hne).bodyLength_lt
      rw [hrest, List.drop_eq_nil_iff] at hnil
      omega
    openers := h.openers
    terminated := h.terminated }

/-- A line break uses the line up. -/
theorem Regular.endLine (h : lexer.Regular) (hne : lexer.rest ≠ []) :
    { lexer.advance (lexer.rest.take lexer.rest.length) with line := lexer.line + 1 }.Regular := by
  have hrest : (lexer.advance (lexer.rest.take lexer.rest.length)).rest = [] := by
    simp [Lexer.advance]
  exact {
    lines_unread := h.lines_unread
    ended_unread := h.ended_unread
    rest := by
      rw [hrest]
      simp [Text.IsLine]
    ended_rest := fun _ hnil => absurd hrest hnil
    line_pos := Nat.le_add_left 1 _
    line_eq := fun hnil => absurd hrest hnil
    next_line := fun _ _ => congrArg (· + 1) (h.line_eq hne)
    openers := h.openers
    terminated := h.terminated }

end

end Lexer

/-- The open brackets after a token, if they were these before it. -/
def Token.nesting (token : Token) (openers : List Token) : List Token :=
  match token.kind with
  | .leftBracket | .leftParen => token :: openers
  | .rightBracket | .rightParen => openers.tail
  | _ => openers

/-- What the lexer finds wrong with a text. -/
inductive Cause.Lexical : Cause → Prop
  | illegalCharacter (c : Char) : Lexical (.illegalCharacter c)
  | invalidNumber : Lexical .invalidNumber
  | extraneous (bracket : String) : Lexical (.extraneous bracket)
  | unclosed (bracket : String) : Lexical (.unclosed bracket)

/-- An error that the lexer finds. -/
def ScriptError.Lexical (e : ScriptError) : Prop := ∃ d, e = .located d ∧ d.cause.Lexical

theorem Token.mem_nesting {token t : Token} {openers : List Token} (h : t ∈ token.nesting openers) :
    t = token ∨ t ∈ openers := by
  unfold nesting at h
  split at h
  · exact List.mem_cons.1 h
  · exact List.mem_cons.1 h
  · exact .inr (List.mem_of_mem_tail h)
  · exact .inr (List.mem_of_mem_tail h)
  · exact .inr h

namespace Lexer

section

variable {lexer after : Lexer}

/-! ## Steps -/

/-- A closing bracket uses up an opening one also when it does not fit. -/
theorem close_cases (lexer : Lexer) (token : Token) (text : List Char) (opener : TokenKind) :
    (∃ openers, openers ⊆ lexer.openers ∧
      lexer.close token text opener =
        { lexer with openers }.refuse (.extraneous token.text) token) ∨
    lexer.close token text opener =
      (.ok token, { lexer.advance text with openers := lexer.openers.tail }) := by
  unfold close
  split
  · exact .inl ⟨lexer.openers, List.Subset.refl _, rfl⟩
  · rename_i innermost outer hopeners
    dsimp only
    split
    · rw [hopeners]
      exact .inr rfl
    · exact .inl ⟨outer, hopeners ▸ List.subset_cons_self _ _, rfl⟩

/-- What becomes of a lexeme : nothing but a bracket can be refused. -/
theorem accept_cases (lexer : Lexer) (token : Token) (text : List Char) :
    (∃ openers, openers ⊆ lexer.openers ∧
      lexer.accept token text = { lexer with openers }.refuse (.extraneous token.text) token) ∨
    lexer.accept token text = (.ok token, { lexer.advance text with
      line := if token.kind = .newline then lexer.line + 1 else lexer.line
      openers := token.nesting lexer.openers }) := by
  unfold accept
  split
  · rename_i hk
    exact .inr (by simp [Token.nesting, hk, advance])
  · rename_i hk
    exact .inr (by simp [Token.nesting, hk, advance])
  · rename_i hk
    exact .inr (by simp [Token.nesting, hk, advance])
  · rename_i hk
    simpa [Token.nesting, hk, advance] using lexer.close_cases token text .leftBracket
  · rename_i hk
    simpa [Token.nesting, hk, advance] using lexer.close_cases token text .leftParen
  · refine .inr ?_
    have hnewline : token.kind ≠ .newline := by assumption
    have hnesting : token.nesting lexer.openers = lexer.openers := by
      unfold Token.nesting
      split <;> first | contradiction | rfl
    rw [if_neg hnewline, hnesting]
    rfl

/-- The lexer behind a lexeme, but for the brackets. -/
def behind (lexer : Lexer) (lexeme : Lexeme) : Lexer :=
  { lexer.advance (lexer.rest.take lexeme.size) with
    line := if lexeme.kind = .newline then lexer.line + 1 else lexer.line }

theorem rest_behind (lexer : Lexer) (lexeme : Lexeme) :
    (lexer.behind lexeme).rest = lexer.rest.drop lexeme.size := by
  change lexer.rest.drop (lexer.rest.take lexeme.size).length = lexer.rest.drop lexeme.size
  rw [List.length_take]
  rcases Nat.le_total lexeme.size lexer.rest.length with hle | hle
  · rw [Nat.min_eq_left hle]
  · rw [Nat.min_eq_right hle, List.drop_length, List.drop_eq_nil_of_le hle]

theorem scan_of_none (h : Lexeme.scan? lexer.rest = none) (c : Char) :
    lexer.scan c = lexer.refuseCharacter c := by
  simp only [scan, h]

/-- A number may be too large to have a value. -/
theorem scan_of_no_literal {lexeme : Lexeme} (h : Lexeme.scan? lexer.rest = some lexeme)
    (hliteral : Lexeme.literal? lexeme.kind (lexer.rest.take lexeme.size) = none) (c : Char) :
    lexer.scan c =
      lexer.refuse .invalidNumber (lexer.tokenHere lexeme.kind (lexer.rest.take lexeme.size)) := by
  simp only [scan, h, hliteral]

theorem scan_of_literal {lexeme : Lexeme} {literal : Literal}
    (h : Lexeme.scan? lexer.rest = some lexeme)
    (hliteral : Lexeme.literal? lexeme.kind (lexer.rest.take lexeme.size) = some literal)
    (c : Char) :
    lexer.scan c = lexer.accept
      ((lexer.tokenHere lexeme.kind (lexer.rest.take lexeme.size)).withLiteral literal)
      (lexer.rest.take lexeme.size) := by
  simp only [scan, h, hliteral]

/-- A scan refuses a text of this line, and then it changes the open brackets at most, or it
takes the lexeme that comes next, which has a value. -/
theorem scan_cases (lexer : Lexer) (c : Char) :
    (∃ cause t openers, cause.Lexical ∧ t.line = lexer.line ∧ openers ⊆ lexer.openers ∧
      lexer.scan c = { lexer with openers }.refuse cause t) ∨
    ∃ lexeme literal, ∃ t : Token, Lexeme.scan? lexer.rest = some lexeme ∧
      Lexeme.literal? lexeme.kind (lexer.rest.take lexeme.size) = some literal ∧
      t = (lexer.tokenHere lexeme.kind (lexer.rest.take lexeme.size)).withLiteral literal ∧
      lexer.scan c = (.ok t, { lexer.behind lexeme with openers := t.nesting lexer.openers }) := by
  rcases hscan : Lexeme.scan? lexer.rest with _ | lexeme
  · exact .inl ⟨.illegalCharacter c, _, lexer.openers, .illegalCharacter c, rfl,
      List.Subset.refl _, scan_of_none hscan c⟩
  rcases hliteral : Lexeme.literal? lexeme.kind (lexer.rest.take lexeme.size) with _ | literal
  · exact .inl ⟨.invalidNumber, _, lexer.openers, .invalidNumber, rfl, List.Subset.refl _,
      scan_of_no_literal hscan hliteral c⟩
  let t := (lexer.tokenHere lexeme.kind (lexer.rest.take lexeme.size)).withLiteral literal
  have haccept := scan_of_literal hscan hliteral c
  rcases lexer.accept_cases t (lexer.rest.take lexeme.size) with ⟨openers, hsub, heq⟩ | heq
  · exact .inl ⟨.extraneous t.text, t, openers, .extraneous _, rfl, hsub, haccept.trans heq⟩
  · exact .inr ⟨lexeme, literal, t, rfl, hliteral, rfl, haccept.trans heq⟩

/-- At the end a bracket is still open, or the last line lacks its newline, or there is nothing
but the end marker. -/
theorem finish_cases (lexer : Lexer) :
    (∃ opener, lexer.openers.getLast? = some opener ∧
      lexer.finish = lexer.refuse (.unclosed opener.text) opener) ∨
    (lexer.openers = [] ∧ lexer.unterminated = true ∧
      lexer.finish = (.ok (.synthetic .newline lexer.line (lexer.column + 1)),
        { lexer with line := lexer.line + 1, column := 0, unterminated := false })) ∨
    (lexer.openers = [] ∧ lexer.unterminated = false ∧
      lexer.finish = (.ok (.synthetic .endMarker lexer.line 1), lexer)) := by
  unfold finish
  rcases hopener : lexer.openers.getLast? with _ | opener
  · have hclosed : lexer.openers = [] := List.getLast?_eq_none_iff.1 hopener
    rcases lexer.unterminated.eq_false_or_eq_true with hu | hu
    · exact .inr (.inl ⟨hclosed, hu, if_pos hu⟩)
    · exact .inr (.inr ⟨hclosed, hu, if_neg (by simp [hu])⟩)
  · exact .inl ⟨opener, rfl, rfl⟩

theorem isBlank_skipBlanks {c : Char} {tail : List Char} (h : lexer.skipBlanks.rest = c :: tail) :
    isBlank c = false := by
  have hne : lexer.rest.dropWhile isBlank ≠ [] := by
    rw [show lexer.rest.dropWhile isBlank = _ from h]
    exact List.cons_ne_nil _ _
  have hhead := List.head_dropWhile_not isBlank hne
  simpa [show lexer.rest.dropWhile isBlank = _ from h] using hhead

theorem skipBlanks_of_nil (h : lexer.rest = []) : lexer.skipBlanks = lexer := by
  rw [skipBlanks, h, List.takeWhile_nil, List.dropWhile_nil, TabStop.span_nil, UInt64.add_zero, ← h]

/-- Blanks are skipped once. -/
theorem skipBlanks_skipBlanks (lexer : Lexer) : lexer.skipBlanks.skipBlanks = lexer.skipBlanks := by
  have hnone : lexer.skipBlanks.rest.takeWhile isBlank = [] := by
    rcases hcons : lexer.skipBlanks.rest with _ | ⟨c, tail⟩
    · rfl
    · rw [List.takeWhile_cons, isBlank_skipBlanks hcons, if_neg Bool.false_ne_true]
  have hrest : lexer.skipBlanks.rest.dropWhile isBlank = lexer.skipBlanks.rest := by
    have happ := List.takeWhile_append_dropWhile (p := isBlank) (l := lexer.skipBlanks.rest)
    rwa [hnone] at happ
  rw [skipBlanks, hrest, hnone, TabStop.span_nil, UInt64.add_zero]

theorem nextTokenFrom_of_cons (pieces : List Piece) {c : Char} {tail : List Char}
    (h : lexer.skipBlanks.rest = c :: tail) :
    nextTokenFrom pieces lexer = lexer.skipBlanks.scan c := by
  rcases pieces with _ | ⟨piece, more⟩ <;>
  · unfold nextTokenFrom
    dsimp only
    split <;> simp_all

theorem nextTokenFrom_nil (h : lexer.skipBlanks.rest = []) :
    nextTokenFrom [] lexer = lexer.skipBlanks.finish := by
  unfold nextTokenFrom
  dsimp only
  split <;> simp_all

theorem nextTokenFrom_line (text : List Char) (more : List Piece) (h : lexer.skipBlanks.rest = []) :
    nextTokenFrom (.line text :: more) lexer =
      nextTokenFrom more ({ lexer.skipBlanks with unread := more }.enterLine text) := by
  conv_lhs => unfold nextTokenFrom
  dsimp only
  split <;> simp_all

/-- Lexers that are related stay so from step to step, and then their replies are related. -/
structure InStep (S : Lexer → Lexer → Prop) (Q : Reply Token → Reply Token → Prop) : Prop where
  skipBlanks : ∀ {lexer lexer'}, S lexer lexer' → S lexer.skipBlanks lexer'.skipBlanks
  rest_nil : ∀ {lexer lexer'}, S lexer lexer' → (lexer.rest = [] ↔ lexer'.rest = [])
  unread_nil : ∀ {lexer lexer'}, S lexer lexer' → lexer.unread = [] → lexer'.unread = []
  enterLine : ∀ {lexer lexer' piece more}, S lexer lexer' → lexer.rest = [] →
    lexer.unread = piece :: more → ∃ text text' more', piece = .line text ∧
      lexer'.unread = .line text' :: more' ∧ S ({ lexer with unread := more }.enterLine text)
        ({ lexer' with unread := more' }.enterLine text')
  scan : ∀ {lexer lexer' c tail c' tail'}, S lexer lexer' → lexer.rest = c :: tail →
    lexer'.rest = c' :: tail' → isBlank c = false → Q (lexer.scan c) (lexer'.scan c')
  finish : ∀ {lexer lexer'}, S lexer lexer' → Q lexer.finish lexer'.finish

/-- One request is answered alike. -/
theorem InStep.nextTokenFrom {S : Lexer → Lexer → Prop} {Q : Reply Token → Reply Token → Prop}
    (h : InStep S Q) : ∀ (pieces : List Piece) {lexer lexer' : Lexer}, lexer.unread = pieces →
      S lexer lexer' → Q (nextTokenFrom pieces lexer) (nextTokenFrom lexer'.unread lexer')
  | pieces, lexer, lexer', hunread, hs => by
    have hskip := h.skipBlanks hs
    rcases hrest : lexer.skipBlanks.rest with _ | ⟨c, tail⟩
    · have hrest' := (h.rest_nil hskip).1 hrest
      rcases pieces with _ | ⟨piece, more⟩
      · have hunread' : lexer'.unread = [] := h.unread_nil hs hunread
        rw [hunread', nextTokenFrom_nil hrest, nextTokenFrom_nil hrest']
        exact h.finish hskip
      · obtain ⟨text, text', more', rfl, hunread', hnext⟩ := h.enterLine hskip hrest hunread
        have hline : lexer'.unread = .line text' :: more' := hunread'
        rw [hline, nextTokenFrom_line _ _ hrest, nextTokenFrom_line _ _ hrest']
        exact h.nextTokenFrom more rfl hnext
    · obtain ⟨c', tail', hrest'⟩ := List.exists_cons_of_ne_nil fun hnil => by
        simp [(h.rest_nil hskip).2 hnil] at hrest
      rw [nextTokenFrom_of_cons _ hrest, nextTokenFrom_of_cons _ hrest']
      exact h.scan hskip hrest hrest' (isBlank_skipBlanks hrest)

theorem nextTokenFrom_undecodable (more : List Piece) (h : lexer.skipBlanks.rest = []) :
    nextTokenFrom (.undecodable :: more) lexer =
      (.error (.unreadable lexer.source (lexer.lines.size + 1)),
        { lexer.skipBlanks with unread := more }) := by
  unfold nextTokenFrom
  simp only [h]
  rfl

/-- What comes next is scanned, or it comes from the end or from bytes that are no text, at a place
that is reached by skipping blanks and entering lines. -/
theorem nextTokenFrom_cases {P : Lexer → Prop} (hblanks : ∀ lexer, P lexer → P lexer.skipBlanks)
    (henter : ∀ lexer text more, P lexer → lexer.rest = [] → lexer.unread = .line text :: more →
      P ({ lexer with unread := more }.enterLine text)) :
    ∀ (pieces : List Piece) {lexer : Lexer}, lexer.unread = pieces → P lexer →
      ∃ start, P start ∧ start.skipBlanks = start ∧
        ((∃ c tail, start.rest = c :: tail ∧ nextTokenFrom pieces lexer = start.scan c) ∨
          (start.rest = [] ∧ start.unread = [] ∧ nextTokenFrom pieces lexer = start.finish) ∨
          ∃ more, start.rest = [] ∧ start.unread = .undecodable :: more ∧
            nextTokenFrom pieces lexer =
              (.error (.unreadable start.source (start.lines.size + 1)),
                { start with unread := more }))
  | pieces, lexer, hunread, h => by
    have hstart := hblanks lexer h
    have hskip := lexer.skipBlanks_skipBlanks
    rcases hrest : lexer.skipBlanks.rest with _ | ⟨c, tail⟩
    · rcases pieces with _ | ⟨text | _, more⟩
      · exact ⟨lexer.skipBlanks, hstart, hskip,
          .inr (.inl ⟨hrest, hunread, nextTokenFrom_nil hrest⟩)⟩
      · rw [nextTokenFrom_line text more hrest]
        exact nextTokenFrom_cases hblanks henter more rfl (henter _ text more hstart hrest hunread)
      · exact ⟨lexer.skipBlanks, hstart, hskip,
          .inr (.inr ⟨more, hrest, hunread, nextTokenFrom_undecodable more hrest⟩)⟩
    · exact ⟨lexer.skipBlanks, hstart, hskip,
        .inl ⟨c, tail, hrest, nextTokenFrom_of_cons pieces hrest⟩⟩

/-- Of a lexer that reads lines, what comes next is scanned or comes from the end. -/
theorem Regular.nextToken_of_kept {P : Lexer → Prop} (hlexer : lexer.Regular) (h : P lexer)
    (hblanks : ∀ {start : Lexer}, start.Regular → P start → P start.skipBlanks)
    (henter : ∀ {start : Lexer} {text more}, start.Regular → P start → start.rest = [] →
      start.unread = .line text :: more → P ({ start with unread := more }.enterLine text)) :
    ∃ start, start.Regular ∧ P start ∧
      ((∃ c tail, start.rest = c :: tail ∧ isBlank c = false ∧ lexer.nextToken = start.scan c) ∨
        start.rest = [] ∧ start.unread = [] ∧ lexer.nextToken = start.finish) := by
  obtain ⟨start, ⟨hstart, hkept⟩, hskip, ⟨c, tail, hrest, hreply⟩ | hend | ⟨more, -, hunread, -⟩⟩ :=
    nextTokenFrom_cases (P := fun start => start.Regular ∧ P start)
      (fun _ h => ⟨h.1.skipBlanks, hblanks h.1 h.2⟩)
      (fun _ _ _ h hrest hunread => ⟨h.1.enterLine hrest hunread, henter h.1 h.2 hrest hunread⟩)
      lexer.unread rfl ⟨hlexer, h⟩
  · exact ⟨start, hstart, hkept,
      .inl ⟨c, tail, hrest, isBlank_skipBlanks (hskip.symm ▸ hrest), hreply⟩⟩
  · exact ⟨start, hstart, hkept, .inr hend⟩
  · obtain ⟨text, heq, -⟩ := hstart.lines_unread .undecodable (by simp [hunread])
    simp at heq

/-! ## Requests -/

/-- The token stands on the current line. It ends the line or does not, and it opens or closes
a bracket or does neither. -/
structure Yields (lexer : Lexer) (t : Token) (after : Lexer) : Prop where
  token_line : t.line = lexer.line
  line_eq : after.line = if t.kind = .newline then lexer.line + 1 else lexer.line
  openers_eq : after.openers = t.nesting lexer.openers

/-- What a request gives : a token that a lexer may go on after, or an error in the lines
that have been read. -/
structure Regular.Gives (lexer : Lexer) (reply : Reply Token) : Prop where
  regular : reply.2.Regular
  onward : lexer.Onward reply.2
  token : ∀ t, reply.1 = .ok t → lexer.Yields t reply.2
  error : ∀ e, reply.1 = .error e → ∃ cause t, cause.Lexical ∧
    e = .located (reply.2.blame cause t) ∧ 1 ≤ t.line ∧ t.line ≤ reply.2.lines.size

theorem Regular.gives_refuse (h : lexer.Regular) {openers : List Token}
    (hsub : openers ⊆ lexer.openers)
    {cause : Cause} {token : Token} (hcause : cause.Lexical) (hpos : 1 ≤ token.line)
    (hle : token.line ≤ lexer.lines.size) :
    Regular.Gives lexer ({ lexer with openers }.refuse cause token) where
  regular := h.withOpeners fun opener ho => h.openers opener (hsub ho)
  onward := .of_eq rfl rfl rfl rfl
  token t ht := by simp [refuse] at ht
  error e he := by
    obtain rfl : _ = e := by simpa [refuse] using he
    exact ⟨cause, token, hcause, rfl, hpos, hle⟩

theorem Regular.behind (h : lexer.Regular) (hne : lexer.rest ≠ []) {lexeme : Lexeme}
    (hscan : Lexeme.scan? lexer.rest = some lexeme) : (lexer.behind lexeme).Regular := by
  unfold Lexer.behind
  rcases Lexeme.scan_line h.rest hne hscan with ⟨-, hnewline, hsize⟩ | ⟨hsize, hnewline, -⟩
  · rw [if_pos hnewline, hsize]
    exact h.endLine hne
  · rw [if_neg hnewline]
    exact h.advance hsize hne

theorem Regular.gives_scan (h : lexer.Regular) {c : Char} {tail : List Char}
    (hrest : lexer.rest = c :: tail) : Regular.Gives lexer (lexer.scan c) := by
  have hne : lexer.rest ≠ [] := by simp [hrest]
  have hle : lexer.line ≤ lexer.lines.size := (h.line_eq hne).le
  rcases lexer.scan_cases c with ⟨cause, t, openers, hcause, hline, hsub, heq⟩ |
    ⟨lexeme, literal, t, hscan, -, ht, heq⟩
  · rw [heq]
    exact h.gives_refuse hsub hcause (hline ▸ h.line_pos) (hline ▸ hle)
  · have hline : t.line = lexer.line := by rw [ht]; rfl
    have hkind : t.kind = lexeme.kind := by rw [ht]; rfl
    rw [heq]
    refine ⟨(h.behind hne hscan).withOpeners fun opener ho => ?_, .of_eq rfl rfl rfl rfl,
      fun t' ht' => ?_, by simp⟩
    · rcases Token.mem_nesting ho with rfl | ho
      · exact ⟨hline ▸ h.line_pos, hline ▸ hle⟩
      · exact h.openers opener ho
    · obtain rfl : t = t' := Except.ok.inj ht'
      exact ⟨hline, hkind ▸ rfl, rfl⟩

theorem Regular.gives_finish (h : lexer.Regular) (hrest : lexer.rest = [])
    (hunread : lexer.unread = []) : Regular.Gives lexer lexer.finish := by
  obtain ⟨opener, hopener, heq⟩ | ⟨-, -, heq⟩ | ⟨-, -, heq⟩ := lexer.finish_cases <;> rw [heq]
  · obtain ⟨hpos, hle⟩ := h.openers opener (List.mem_of_getLast? hopener)
    exact h.gives_refuse (List.Subset.refl _) (.unclosed _) hpos hle
  · refine ⟨?_, .of_eq rfl rfl rfl rfl, fun t ht => ?_, by simp⟩
    · exact {
        lines_unread := h.lines_unread
        ended_unread := h.ended_unread
        rest := h.rest
        ended_rest := fun hne _ => absurd hunread hne
        line_pos := Nat.le_add_left 1 _
        line_eq := fun hne => absurd hrest hne
        next_line := fun _ hne => absurd hunread hne
        openers := h.openers
        terminated := fun hne _ => absurd hunread hne }
    · obtain rfl := Except.ok.inj ht
      exact ⟨rfl, rfl, rfl⟩
  · refine ⟨h, .refl lexer, fun t ht => ?_, by simp⟩
    obtain rfl := Except.ok.inj ht
    exact ⟨rfl, rfl, rfl⟩

/-- What comes next comes from the line that is next to be used up, or from the end. -/
structure Regular.Next (lexer start : Lexer) : Prop where
  regular : start.Regular
  onward : lexer.Onward start
  line_eq : start.line = lexer.line
  openers_eq : start.openers = lexer.openers

theorem Regular.nextToken_eq (h : lexer.Regular) : ∃ start, Regular.Next lexer start ∧
    ((∃ c tail, start.rest = c :: tail ∧ isBlank c = false ∧ lexer.nextToken = start.scan c) ∨
      start.rest = [] ∧ start.unread = [] ∧ lexer.nextToken = start.finish) := by
  obtain ⟨start, hstart, ⟨honward, hline, hopeners⟩, hreply⟩ :=
    h.nextToken_of_kept (P := fun start =>
        lexer.Onward start ∧ start.line = lexer.line ∧ start.openers = lexer.openers)
      ⟨.refl lexer, rfl, rfl⟩
      (fun _ h => ⟨h.1.trans (.of_eq rfl rfl rfl rfl), h.2⟩)
      (fun {start text more} _ h _ hunread => by
        have hread : start.Onward ({ start with unread := more }.enterLine text) :=
          ⟨rfl, rfl, [text], hunread, by simp [Lexer.enterLine]⟩
        exact ⟨h.1.trans hread, h.2⟩)
  exact ⟨start, ⟨hstart, honward, hline, hopeners⟩, hreply⟩

theorem Regular.Next.gives {start : Lexer} {reply : Reply Token} (hnext : Regular.Next lexer start)
    (h : Regular.Gives start reply) : Regular.Gives lexer reply where
  regular := h.regular
  onward := hnext.onward.trans h.onward
  token t ht := by
    obtain ⟨htoken, hline, hopeners⟩ := h.token t ht
    exact ⟨htoken.trans hnext.line_eq, hnext.line_eq ▸ hline, hnext.openers_eq ▸ hopeners⟩
  error := h.error

/-- Every request keeps the lexer regular. -/
theorem Regular.gives_nextToken (h : lexer.Regular) : Regular.Gives lexer lexer.nextToken := by
  obtain ⟨start, hnext, ⟨c, tail, hrest, -, hreply⟩ | ⟨hrest, hunread, hreply⟩⟩ := h.nextToken_eq
  · exact hreply ▸ hnext.gives (hnext.regular.gives_scan hrest)
  · exact hreply ▸ hnext.gives (hnext.regular.gives_finish hrest hunread)

/-- A token of a line stands on that line, and only its newline uses it up. -/
theorem Regular.scan_ok (h : lexer.Regular) {c : Char} {tail : List Char}
    (hrest : lexer.rest = c :: tail) {t : Token} (hscan : lexer.scan c = (.ok t, after)) :
    t.line = lexer.line ∧ t.kind ≠ .endMarker ∧
      (Text.EndsLine lexer.rest → after.rest = [] → t.kind = .newline) := by
  have hne : lexer.rest ≠ [] := by simp [hrest]
  rcases lexer.scan_cases c with ⟨_, _, _, -, -, -, heq⟩ |
    ⟨lexeme, literal, t', hlexeme, -, ht, heq⟩
  · simp [heq, refuse] at hscan
  · obtain ⟨htoken, rfl⟩ := Prod.mk.inj (heq.symm.trans hscan)
    obtain rfl : t' = t := Except.ok.inj htoken
    have hkind : t'.kind = lexeme.kind := by rw [ht]; rfl
    refine ⟨by rw [ht]; rfl, ?_⟩
    rw [hkind]
    rcases Lexeme.scan_line h.rest hne hlexeme with ⟨-, hnewline, -⟩ | ⟨hsize, -, hmarker⟩
    · exact ⟨by simp [hnewline], fun _ _ => hnewline⟩
    · refine ⟨hmarker, fun hended hnil => ?_⟩
      have hlt := hended.bodyLength_lt
      have hdrop : lexer.rest.drop lexeme.size = [] := (lexer.rest_behind lexeme).symm.trans hnil
      rw [List.drop_eq_nil_iff] at hdrop
      omega

end

/-! ## Runs -/

/-- Every line of the lexer is used up. -/
def Exhausted (lexer : Lexer) : Prop := lexer.rest = [] ∧ lexer.unread = []

theorem regular_ofSource (name text : String) (tab : TabStop) :
    (ofSource (.ofText name text tab)).Regular where
  lines_unread piece hp := by
    obtain ⟨line, hline, rfl⟩ := List.mem_map.1 hp
    exact ⟨line, rfl, Text.ne_nil_of_mem_lines hline, Text.isLine_of_mem_lines hline⟩
  ended_unread line hl := by
    have hmap : .line line ∈ ((Text.lines text.toList).map Piece.line).dropLast := hl
    rw [← List.map_dropLast] at hmap
    obtain ⟨line', hline', heq⟩ := List.mem_map.1 hmap
    obtain rfl := Piece.line.inj heq
    exact Text.endsLine_of_mem_dropLast hline'
  rest := by simp [Text.IsLine, ofSource]
  ended_rest _ hne := absurd rfl hne
  line_pos := Nat.le_refl 1
  line_eq hne := absurd rfl hne
  next_line _ _ := rfl
  openers opener ho := absurd ho List.not_mem_nil
  terminated _ _ := rfl

variable {lexer : Lexer}

theorem Regular.after (h : lexer.Regular) : ∀ n, (lexer.after n).Regular
  | 0 => h
  | n + 1 => (h.after n).gives_nextToken.regular

theorem Regular.onward_add (h : lexer.Regular) (m : Nat) : ∀ n,
    (lexer.after m).Onward (lexer.after (m + n))
  | 0 => .refl _
  | n + 1 => (h.onward_add m n).trans (h.after (m + n)).gives_nextToken.onward

theorem Regular.onward (h : lexer.Regular) {m n : Nat} (hle : m ≤ n) :
    (lexer.after m).Onward (lexer.after n) := by
  obtain ⟨k, rfl⟩ := Nat.exists_eq_add_of_le hle
  exact h.onward_add m k

theorem Regular.item_ok (h : lexer.Regular) {n : Nat} {t : Token}
    (ht : lexer.item n = .ok (some t)) : (lexer.after n).Yields t (lexer.after (n + 1)) := by
  have hnext := item_eq_ok_iff.1 ht
  have hgives := (h.after n).gives_nextToken.token t (by rw [hnext])
  rwa [hnext] at hgives

theorem Regular.item_line_pos (h : lexer.Regular) {n : Nat} {t : Token}
    (ht : lexer.item n = .ok (some t)) : 1 ≤ t.line :=
  (h.item_ok ht).token_line ▸ (h.after n).line_pos

/-- Tokens are on the same line up to a newline, and on a later one after it. -/
theorem Regular.line_le (h : lexer.Regular) {m n : Nat} (hle : m ≤ n)
    (htokens : ∀ i < n, ∃ t, lexer.item i = .ok (some t)) :
    (lexer.after m).line ≤ (lexer.after n).line ∧
      ((∀ i t, m ≤ i → i < n → lexer.item i = .ok (some t) → t.kind ≠ .newline) →
        (lexer.after n).line = (lexer.after m).line) := by
  induction n, hle using Nat.le_induction with
  | base => exact ⟨Nat.le_refl _, fun _ => rfl⟩
  | succ n hle ih =>
    obtain ⟨hmono, hsame⟩ := ih fun i hi => htokens i (Nat.lt_succ_of_lt hi)
    obtain ⟨t, ht⟩ := htokens n (Nat.lt_succ_self n)
    have hline := (h.item_ok ht).line_eq
    constructor
    · rw [hline]
      split <;> omega
    · intro hnewline
      rw [hline, if_neg (hnewline n t hle (Nat.lt_succ_self n) ht)]
      exact hsame fun i t hi hlt => hnewline i t hi (Nat.lt_succ_of_lt hlt)

/-- An error stands on a line that has been read. -/
theorem Regular.item_error (h : lexer.Regular) {n : Nat} {e : ScriptError}
    (he : lexer.item n = .error e) : ∃ cause t, cause.Lexical ∧
      e = .located ((lexer.after (n + 1)).blame cause t) ∧
      1 ≤ t.line ∧ t.line ≤ (lexer.after (n + 1)).lines.size :=
  (h.after n).gives_nextToken.error e (item_eq_error_iff.1 he)

theorem Regular.item_lexical (h : lexer.Regular) {n : Nat} {e : ScriptError}
    (he : lexer.item n = .error e) : e.Lexical := by
  obtain ⟨cause, t, hcause, rfl, -⟩ := h.item_error he
  exact ⟨_, rfl, hcause⟩

end Lexer

end OpticScript
