import OpticScript.Proofs.Lexer.Layout
import OpticScript.Proofs.Text.Endings

/-!
# Tokens and line endings

Two lexers that read the same lines with different ends run in step (`Lexer.Twin`) : where
they stand on a line, what is left of it, the open brackets and the lines that have been
read are the same but for the ends. They part only at a newline, whose text shows how the
line ends (`Token.Twin`), and the column behind it, which nothing depends on.

One request keeps that (`Twin.nextToken`), and so does a whole run (`Twin.item`). What is
shown of a line is the same (`Twin.blame_eq`), and hence the errors are.
-/

namespace OpticScript

/-- Tokens that are the same, unless they are newlines : then they stand at the same place. -/
structure Token.Twin (t t' : Token) : Prop where
  kind_eq : t'.kind = t.kind
  line_eq : t'.line = t.line
  startColumn_eq : t'.startColumn = t.startColumn
  eq_of_ne : t.kind ≠ .newline → t' = t

theorem Token.Twin.refl (t : Token) : t.Twin t := ⟨rfl, rfl, rfl, fun _ => rfl⟩

/-- Lines that differ in their ends at most. -/
inductive Piece.Twin : Piece → Piece → Prop
  | line {text text' : List Char} (h : Text.SameLine text text') : Twin (.line text) (.line text')

namespace Lexer

/-- Lexers that read the same lines with different ends and have got equally far. -/
structure Twin (lexer lexer' : Lexer) : Prop where
  source_eq : lexer'.source = lexer.source
  tab_eq : lexer'.tab = lexer.tab
  unread : List.Forall₂ Piece.Twin lexer.unread lexer'.unread
  texts : List.Forall₂ Text.SameLine lexer.texts lexer'.texts
  rest : Text.SameLine lexer.rest lexer'.rest
  column_eq : lexer.rest ≠ [] ∨ lexer.unterminated = true → lexer'.column = lexer.column
  line_eq : lexer'.line = lexer.line
  openers_eq : lexer'.openers = lexer.openers
  unterminated_eq : lexer'.unterminated = lexer.unterminated
  ended : Text.EndsLine lexer.rest → lexer.unterminated = false

/-- Replies that differ in a newline at most. -/
inductive Reply.Twin : Reply Token → Reply Token → Prop
  | ok {t t' : Token} {lexer lexer' : Lexer} (ht : t.Twin t') (h : lexer.Twin lexer') :
      Twin (.ok t, lexer) (.ok t', lexer')
  | error (e : ScriptError) {lexer lexer' : Lexer} (h : lexer.Twin lexer') :
      Twin (.error e, lexer) (.error e, lexer')

theorem rel_getElem {α β : Type} {R : α → β → Prop} {as : List α} {bs : List β}
    (h : List.Forall₂ R as bs) (i : Nat) : Option.Rel R as[i]? bs[i]? := by
  induction h generalizing i with
  | nil => exact .none
  | cons h _ ih =>
    cases i with
    | zero => exact .some h
    | succ i => exact ih i

section

variable {lexer lexer' : Lexer}

theorem getElem_texts (lexer : Lexer) (n : Nat) :
    lexer.texts[n]? = lexer.lines[n]?.map String.toList := by
  simp [texts]

/-- What is shown of a line does not tell its end. -/
theorem Twin.sourceLine_eq (h : lexer.Twin lexer') (n : Nat) :
    lexer'.sourceLine? n = lexer.sourceLine? n := by
  rcases n with _ | n
  · rfl
  · have hrel := rel_getElem h.texts n
    rcases hline : lexer.texts[n]? with _ | line <;>
      rcases hline' : lexer'.texts[n]? with _ | line' <;> rw [hline, hline'] at hrel <;> cases hrel
    · rw [getElem_texts, Option.map_eq_none_iff] at hline hline'
      simp [sourceLine?, hline, hline']
    · rename_i hsame
      rw [Lexer.sourceLine_eq (Nat.le_add_left 1 n) hline hsame.isLine.1,
        Lexer.sourceLine_eq (Nat.le_add_left 1 n) hline' hsame.isLine.2, h.tab_eq, hsame.body_eq]

theorem Twin.blame_eq (h : lexer.Twin lexer') : lexer'.blame = lexer.blame := by
  funext cause token
  simp only [blame, h.source_eq, h.sourceLine_eq]

theorem Twin.refuse (h : lexer.Twin lexer') (cause : Cause) (token : Token) :
    Reply.Twin (lexer.refuse cause token) (lexer'.refuse cause token) := by
  rw [Lexer.refuse, Lexer.refuse, h.blame_eq]
  exact .error _ h

/-! ## Blanks and lines -/

theorem Twin.skipBlanks (h : lexer.Twin lexer') : lexer.skipBlanks.Twin lexer'.skipBlanks := by
  obtain ⟨body, e, e', hbody, hrest, hrest', hsome⟩ := h.rest
  have hkept : ∀ c ∈ body.dropWhile isBlank, Text.isLineBreak c = false := fun c hc =>
    hbody c ((List.dropWhile_sublist _).subset hc)
  have hleft : lexer.skipBlanks.rest = body.dropWhile isBlank ++ LineEnding.ends e := by
    rw [Lexer.skipBlanks, hrest, Text.dropWhile_ends fun _ => Text.isLineBreak_of_isBlank]
  have hleft' : lexer'.skipBlanks.rest = body.dropWhile isBlank ++ LineEnding.ends e' := by
    rw [Lexer.skipBlanks, hrest', Text.dropWhile_ends fun _ => Text.isLineBreak_of_isBlank]
  have hgap : lexer'.rest.takeWhile isBlank = lexer.rest.takeWhile isBlank := by
    rw [hrest, hrest', Text.takeWhile_ends fun _ => Text.isLineBreak_of_isBlank,
      Text.takeWhile_ends fun _ => Text.isLineBreak_of_isBlank]
  exact { h with
    rest := ⟨_, e, e', hkept, hleft, hleft', hsome⟩
    column_eq := fun hcolumn => by
      have hold : lexer.rest ≠ [] ∨ lexer.unterminated = true :=
        hcolumn.imp_left fun hne hnil => hne (by simp [Lexer.skipBlanks, hnil])
      rw [Lexer.skipBlanks, Lexer.skipBlanks, h.column_eq hold, h.tab_eq, hgap]
    ended := fun hended => h.ended (by
      rw [Text.EndsLine, hleft, Text.any_getLast_ends hkept] at hended
      rw [Text.EndsLine, hrest, Text.any_getLast_ends hbody, hended]) }

theorem Twin.enterLine (h : lexer.Twin lexer') {text text' : List Char}
    (hline : Text.SameLine text text') {more more' : List Piece}
    (hmore : List.Forall₂ Piece.Twin more more') :
    ({ lexer with unread := more }.enterLine text).Twin
      ({ lexer' with unread := more' }.enterLine text') where
  source_eq := h.source_eq
  tab_eq := h.tab_eq
  unread := hmore
  texts := by
    rw [texts_enterLine, texts_enterLine]
    exact List.rel_append h.texts (.cons hline .nil)
  rest := hline
  column_eq _ := rfl
  line_eq := h.line_eq
  openers_eq := h.openers_eq
  unterminated_eq := congrArg (!·) hline.any_getLast_eq
  ended hended := congrArg (!·) hended

/-! ## Tokens -/

/-- A part of the line, which is the same for both, is used up. -/
theorem Twin.advance (h : lexer.Twin lexer') {n : Nat} (hn : n ≤ Text.bodyLength lexer.rest) :
    lexer'.rest.take n = lexer.rest.take n ∧
      (lexer.advance (lexer.rest.take n)).Twin (lexer'.advance (lexer.rest.take n)) := by
  obtain ⟨body, e, e', hbody, hrest, hrest', hsome⟩ := h.rest
  have hlength : n ≤ body.length := by
    have : Text.bodyLength lexer.rest = body.length := by
      rw [hrest]
      exact congrArg List.length (Text.body_ends hbody e)
    omega
  have htake : ∀ e, (body ++ LineEnding.ends e).take n = body.take n := fun e =>
    List.take_append_of_le_length hlength
  have hdrop : ∀ e, (body ++ LineEnding.ends e).drop (body.take n).length =
      body.drop n ++ LineEnding.ends e := fun e => by
    rw [List.length_take_of_le hlength, List.drop_append_of_le_length hlength]
  have hkept : ∀ c ∈ body.drop n, Text.isLineBreak c = false := fun c hc =>
    hbody c ((List.drop_sublist n body).subset hc)
  have hleft : (lexer.advance (lexer.rest.take n)).rest = body.drop n ++ LineEnding.ends e := by
    rw [Lexer.advance, hrest, htake, hdrop]
  have hleft' : (lexer'.advance (lexer.rest.take n)).rest = body.drop n ++ LineEnding.ends e' := by
    rw [Lexer.advance, hrest, hrest', htake, hdrop]
  refine ⟨by rw [hrest, hrest', htake, htake], { h with
    rest := ⟨_, e, e', hkept, hleft, hleft', hsome⟩
    column_eq := fun hcolumn => ?_
    ended := fun hended => h.ended ?_ }⟩
  · have hold : lexer.rest ≠ [] ∨ lexer.unterminated = true :=
      hcolumn.imp_left fun hne hnil => hne (by simp [Lexer.advance, hnil])
    rw [Lexer.advance, Lexer.advance, h.column_eq hold, h.tab_eq]
  · rw [Text.EndsLine, hleft, Text.any_getLast_ends hkept] at hended
    rw [Text.EndsLine, hrest, Text.any_getLast_ends hbody, hended]

theorem Twin.withOpeners (h : lexer.Twin lexer') (openers : List Token) :
    { lexer with openers }.Twin { lexer' with openers } :=
  { h with openers_eq := rfl }

theorem Twin.close (h : lexer.Twin lexer') (token : Token) {text : List Char}
    (hadvance : (lexer.advance text).Twin (lexer'.advance text)) (opener : TokenKind) :
    Reply.Twin (lexer.close token text opener) (lexer'.close token text opener) := by
  rcases hopeners : lexer.openers with _ | ⟨innermost, outer⟩
  · simp only [Lexer.close, h.openers_eq, hopeners]
    exact h.refuse _ token
  · simp only [Lexer.close, h.openers_eq, hopeners]
    split
    · exact .ok (.refl token) (hadvance.withOpeners outer)
    · exact (h.withOpeners outer).refuse _ token

theorem Twin.accept (h : lexer.Twin lexer') (token : Token) {text : List Char}
    (hadvance : (lexer.advance text).Twin (lexer'.advance text)) :
    Reply.Twin (lexer.accept token text) (lexer'.accept token text) := by
  unfold Lexer.accept
  split
  · exact .ok (.refl token) { hadvance with line_eq := congrArg (· + 1) h.line_eq }
  · exact .ok (.refl token) (h.openers_eq ▸ hadvance.withOpeners (token :: lexer.openers))
  · exact .ok (.refl token) (h.openers_eq ▸ hadvance.withOpeners (token :: lexer.openers))
  · exact h.close token hadvance .leftBracket
  · exact h.close token hadvance .leftParen
  · exact .ok (.refl token) hadvance

/-- The end of a line is a newline, whatever it is. -/
theorem scan_ending {e : LineEnding} (hrest : lexer.rest = e.chars) (c : Char) :
    ∃ t : Token, t.kind = .newline ∧ t.line = lexer.line ∧ t.startColumn = lexer.column + 1 ∧
      lexer.scan c = (.ok t, { lexer.advance lexer.rest with line := lexer.line + 1 }) := by
  have hends : ∃ lexeme, Lexeme.scan? lexer.rest = some lexeme ∧ lexeme.kind = .newline ∧
      lexeme.size = lexer.rest.length := by
    rw [hrest]
    have hline : Text.IsLine ([] ++ LineEnding.ends (some e)) := Text.isLine_ends (by simp) (some e)
    cases e <;> exact Lexeme.scan_lineBreak hline (by decide) (by decide)
  obtain ⟨lexeme, hlexeme, hkind, hsize⟩ := hends
  refine ⟨(lexer.tokenHere .newline lexer.rest).withLiteral (.text (String.ofList lexer.rest)),
    rfl, rfl, rfl, ?_⟩
  simp only [Lexer.scan, hlexeme, hkind, hsize, List.take_length]
  rfl

theorem Twin.scan (h : lexer.Twin lexer') {c c' : Char} {tail tail' : List Char}
    (hc : lexer.rest = c :: tail) (hc' : lexer'.rest = c' :: tail') :
    Reply.Twin (lexer.scan c) (lexer'.scan c') := by
  have hcolumn : lexer'.column = lexer.column := h.column_eq (.inl (by simp [hc]))
  obtain ⟨body, e, e', hbody, hrest, hrest', hsome⟩ := h.rest
  rcases body with _ | ⟨d, body⟩
  · obtain ⟨u, rfl⟩ : ∃ u, e = some u := by
      rcases e with _ | u
      · simp [hrest, LineEnding.ends] at hc
      · exact ⟨u, rfl⟩
    obtain ⟨v, rfl⟩ : ∃ v, e' = some v := Option.isSome_iff_exists.1 hsome.symm
    obtain ⟨t, hkind, hline, hstart, hscan⟩ := scan_ending hrest c
    obtain ⟨t', hkind', hline', hstart', hscan'⟩ := scan_ending hrest' c'
    have hused : ∀ lexer : Lexer, (lexer.advance lexer.rest).rest = [] := fun lexer =>
      List.drop_length
    have hterminated : lexer.unterminated = false := h.ended (by
      rw [Text.EndsLine, hrest]
      exact Text.any_getLast_ends (by simp) (some u))
    rw [hscan, hscan']
    refine .ok ⟨by rw [hkind, hkind'], by rw [hline, hline', h.line_eq],
      by rw [hstart, hstart', hcolumn], fun hne => absurd hkind hne⟩ { h with
        rest := ?_
        column_eq := fun hleft => ?_
        line_eq := congrArg (· + 1) h.line_eq
        ended := fun _ => hterminated }
    · change Text.SameLine (lexer.advance lexer.rest).rest (lexer'.advance lexer'.rest).rest
      rw [hused, hused]
      exact .nil
    · rcases hleft with hne | hunterminated
      · exact absurd (hused lexer) hne
      · exact absurd (hterminated.symm.trans hunterminated) (by decide)
  · obtain ⟨rfl, -⟩ := List.cons.inj (hrest.symm.trans hc)
    obtain ⟨rfl, -⟩ := List.cons.inj (hrest'.symm.trans hc')
    have hd : Text.isLineBreak d = false := hbody d List.mem_cons_self
    have hscan : Lexeme.scan? lexer'.rest = Lexeme.scan? lexer.rest := by
      rw [hrest, hrest', Lexeme.scan_ends e hd, Lexeme.scan_ends e' hd]
    rcases hlexeme : Lexeme.scan? lexer.rest with _ | lexeme
    · simp only [Lexer.scan, hscan, hlexeme, refuseCharacter, tokenHere, hcolumn,
        h.line_eq, h.tab_eq]
      rw [h.rest.body_eq]
      exact h.refuse _ _
    · obtain ⟨htake, hadvance⟩ := h.advance (n := lexeme.size) (by
        refine (Lexeme.size_le_bodyLength h.rest.isLine.1 ?_ hlexeme).1
        simp [hc, hd])
      simp only [Lexer.scan, hscan, hlexeme, htake, tokenHere, hcolumn, h.line_eq, h.tab_eq]
      split
      · exact h.refuse _ _
      · exact h.accept _ hadvance

theorem Twin.finish (h : lexer.Twin lexer') : Reply.Twin lexer.finish lexer'.finish := by
  unfold Lexer.finish
  rw [h.openers_eq, h.unterminated_eq, h.line_eq]
  split
  · exact h.refuse _ _
  · split
    · rename_i hunterminated
      rw [h.column_eq (.inr hunterminated)]
      exact .ok (.refl _) { h with
        column_eq := fun _ => rfl
        line_eq := rfl
        openers_eq := rfl
        unterminated_eq := rfl
        ended := fun _ => rfl }
    · exact .ok (.refl _) h

/-! ## Requests -/

theorem twin_inStep : InStep Twin Reply.Twin where
  skipBlanks h := h.skipBlanks
  rest_nil h := h.rest.eq_nil_iff
  unread_nil h hunread := List.forall₂_nil_left_iff.1 (hunread ▸ h.unread)
  enterLine {lexer lexer' piece more} h _ hunread := by
    obtain ⟨piece', more', hpiece, hmore, hunread'⟩ :=
      List.forall₂_cons_left_iff.1 (hunread ▸ h.unread)
    cases hpiece with
    | line hline => exact ⟨_, _, _, rfl, hunread', h.enterLine hline hmore⟩
  scan h hc hc' _ := h.scan hc hc'
  finish h := h.finish

theorem Twin.nextToken (h : lexer.Twin lexer') : Reply.Twin lexer.nextToken lexer'.nextToken :=
  twin_inStep.nextTokenFrom lexer.unread rfl h

theorem Reply.Twin.next {reply reply' : Reply Token} (h : reply.Twin reply') :
    reply.2.Twin reply'.2 := by
  cases h <;> assumption

/-! ## Runs -/

theorem Twin.after (h : lexer.Twin lexer') : ∀ n, (lexer.after n).Twin (lexer'.after n)
  | 0 => h
  | n + 1 => (h.after n).nextToken.next

/-- The tokens are alike, and an error is the same. -/
theorem Twin.item (h : lexer.Twin lexer') (n : Nat) :
    (∃ t t' : Token, lexer.item n = .ok (some t) ∧ lexer'.item n = .ok (some t') ∧ t.Twin t') ∨
      ∃ e, lexer.item n = .error e ∧ lexer'.item n = .error e := by
  have hreply := (h.after n).nextToken
  rw [Lexer.item, Lexer.item]
  rcases hnext : (lexer.after n).nextToken with ⟨answer, next⟩
  rcases hnext' : (lexer'.after n).nextToken with ⟨answer', next'⟩
  rw [hnext, hnext'] at hreply
  cases hreply with
  | ok ht => exact .inl ⟨_, _, rfl, rfl, ht⟩
  | error e => exact .inr ⟨e, rfl, rfl⟩

end

/-- Lexers of the same lines begin in step. -/
theorem twin_ofSource {source source' : Source} (hname : source'.name = source.name)
    (htab : source'.tab = source.tab)
    (hpieces : List.Forall₂ Piece.Twin source.pieces source'.pieces) :
    (ofSource source).Twin (ofSource source') where
  source_eq := hname
  tab_eq := htab
  unread := hpieces
  texts := .nil
  rest := .nil
  column_eq _ := rfl
  line_eq := rfl
  openers_eq := rfl
  unterminated_eq := rfl
  ended hended := absurd hended (by simp [ofSource, Text.EndsLine])

end Lexer

end OpticScript
