import OpticScript.Proofs.Lexer.Layout
import OpticScript.Proofs.Text.TabStop

/-!
# What the columns point at

The columns of a token are those of its text in the line that it stands on (`Token.Spans`), and
if there is room for them in a word, its text is shown there (`Token.Spans.shows`). A lexer keeps
count of the columns that lie behind (`Lexer.Aligned`), whether they are skipped or taken up by a
token, and whether or not there has been an error; every request keeps that
(`Aligned.gives_nextToken`). So a token stands at its columns (`Lexer.Stands`), a newline
stands behind its line (`Lexer.Trails`), and what an error blames stands at its columns too
(`Aligned.item_error`).
-/

namespace OpticScript

/-- The token stands at its columns in the line, whose tabs are not expanded. -/
def Token.Spans (t : Token) (tab : TabStop) (line : List Char) : Prop :=
  ∃ before after, line = before ++ t.text.toList ++ after ∧
    t.startColumn = tab.span before + 1 ∧ t.stopColumn = tab.span (before ++ t.text.toList) + 1

theorem Token.Spans.shows {t : Token} {tab : TabStop} {line : List Char} (h : t.Spans tab line)
    (hroom : (tab.expand line).length + 1 < UInt64.size) :
    tab.Shows (String.ofList (tab.expand line)) t.startColumn.toNat t.stopColumn.toNat t.text := by
  obtain ⟨before, after, rfl, hstart, hstop⟩ := h
  simp only [tab.expand_append, List.length_append] at hroom
  have hbefore : (tab.span before).toNat = (tab.expand before).length :=
    TabStop.toNat_span (by omega)
  have htext : (tab.span (before ++ t.text.toList)).toNat =
      (tab.expand before ++ tab.expand t.text.toList).length := by
    rw [TabStop.toNat_span (by rw [tab.expand_append, List.length_append]; omega),
      tab.expand_append]
  refine ⟨tab.expand before, tab.expand after, ?_, ?_, ?_⟩
  · rw [String.toList_ofList, tab.expand_append, tab.expand_append]
  · rw [hstart, TabStop.toNat_succ (by omega), hbefore]
  · rw [hstop, TabStop.toNat_succ (by rw [htext, List.length_append]; omega), htext]

namespace Lexer

/-- The token was read from a line that the lexer keeps, and stands there at its columns. -/
structure Stands (lexer : Lexer) (t : Token) : Prop where
  line_pos : 1 ≤ t.line
  text_ne : t.text ≠ ""
  spans : ∃ line, lexer.texts[t.line - 1]? = some line ∧ t.Spans lexer.tab (Text.body line)

/-- The newline stands behind its line, unless the text has no lines. -/
inductive Trails (lexer : Lexer) (t : Token) : Prop
  | line {line : List Char} (hpos : 1 ≤ t.line) (hget : lexer.texts[t.line - 1]? = some line)
      (hstart : t.startColumn = lexer.tab.span (Text.body line) + 1)
  | noLine (hline : lexer.lines.size < t.line) (hunread : lexer.unread = [])

/-- The columns that lie behind are those of the part of the current line that does, and the
open brackets stand at their columns. -/
structure Aligned (lexer : Lexer) : Prop where
  size_le : lexer.lines.size ≤ lexer.line
  column : lexer.line = lexer.lines.size → ∃ part, (∀ c ∈ part, Text.isLineBreak c = false) ∧
    lexer.texts.getLast? = some (part ++ lexer.rest) ∧ lexer.column = lexer.tab.span part
  openers : ∀ opener ∈ lexer.openers, lexer.Stands opener

section

variable {lexer after : Lexer} {t : Token}

theorem length_texts (lexer : Lexer) : lexer.texts.length = lexer.lines.size := by
  simp [texts]

theorem Stands.onward (h : lexer.Stands t) (hon : lexer.Onward after) : after.Stands t := by
  obtain ⟨line, hget, hspans⟩ := h.spans
  obtain ⟨more, htexts⟩ := hon.texts_eq
  refine ⟨h.line_pos, h.text_ne, line, ?_, hon.tab_eq ▸ hspans⟩
  rw [htexts, List.getElem?_append_left (List.getElem?_eq_some_iff.1 hget).1, hget]

theorem Trails.onward (h : lexer.Trails t) (hon : lexer.Onward after) : after.Trails t := by
  cases h with
  | @line line hpos hget hstart =>
    obtain ⟨more, htexts⟩ := hon.texts_eq
    refine .line hpos ?_ (hon.tab_eq ▸ hstart)
    rw [htexts, List.getElem?_append_left (List.getElem?_eq_some_iff.1 hget).1, hget]
  | noLine hline hunread =>
    obtain ⟨texts, happ, hlines⟩ := hon.read
    rw [hunread] at happ
    obtain ⟨htexts, hafter⟩ := List.append_eq_nil_iff.1 happ.symm
    obtain rfl := List.map_eq_nil_iff.1 htexts
    refine .noLine ?_ hafter
    rwa [← Array.length_toList, hlines, List.map_nil, List.append_nil, Array.length_toList]

/-! ## Blanks and lines -/

theorem Aligned.skipBlanks (h : lexer.Aligned) : lexer.skipBlanks.Aligned where
  size_le := h.size_le
  column hline := by
    obtain ⟨part, hpart, hlast, hcolumn⟩ := h.column hline
    refine ⟨part ++ lexer.rest.takeWhile isBlank, ?_, ?_, ?_⟩
    · refine List.forall_mem_append.2 ⟨hpart, fun c hc => ?_⟩
      exact Text.isLineBreak_of_mem_take (blanks_le_bodyLength lexer.rest)
        ((List.prefix_iff_eq_take.1 (List.takeWhile_prefix _)) ▸ hc)
    · rw [List.append_assoc, Lexer.skipBlanks, List.takeWhile_append_dropWhile]
      exact hlast
    · change lexer.column + lexer.tab.span _ = lexer.tab.span _
      rw [hcolumn, TabStop.span_append]
  openers opener ho := (h.openers opener ho).onward (.of_eq rfl rfl rfl rfl)

theorem Aligned.enterLine (h : lexer.Aligned) {text : List Char} {more : List Piece}
    (hline : lexer.line = lexer.lines.size + 1) :
    ({ lexer with unread := more }.enterLine text).Aligned where
  size_le := by simp [Lexer.enterLine, hline]
  column _ := ⟨[], by simp, by simp [texts, Lexer.enterLine], rfl⟩
  openers opener ho := by
    obtain ⟨hpos, hne, line, hget, hspans⟩ := h.openers opener ho
    refine ⟨hpos, hne, line, ?_, hspans⟩
    rw [texts_enterLine]
    exact (List.getElem?_append_left (List.getElem?_eq_some_iff.1 hget).1).trans hget

/-! ## Tokens -/

theorem Aligned.withOpeners {openers : List Token} (h : lexer.Aligned)
    (ho : ∀ opener ∈ openers, lexer.Stands opener) : { lexer with openers }.Aligned :=
  ⟨h.size_le, h.column, fun opener hmem => (ho opener hmem).onward (.of_eq rfl rfl rfl rfl)⟩

/-- The part of the current line that lies behind. -/
theorem Aligned.exists_part (h : lexer.Aligned) (hline : lexer.line = lexer.lines.size) :
    ∃ part, (∀ c ∈ part, Text.isLineBreak c = false) ∧
      lexer.texts[lexer.line - 1]? = some (part ++ lexer.rest) ∧
      lexer.column = lexer.tab.span part := by
  obtain ⟨part, hpart, hlast, hcolumn⟩ := h.column hline
  refine ⟨part, hpart, ?_, hcolumn⟩
  rw [hline, ← length_texts, ← List.getLast?_eq_getElem?, hlast]

/-- A token that is taken off the current line stands on it. -/
theorem Aligned.stands (h : lexer.Aligned) (hlexer : lexer.Regular) (hne : lexer.rest ≠ [])
    {kind : TokenKind} {n : Nat} (hpos : 0 < n) (hn : n ≤ Text.bodyLength lexer.rest)
    (literal : Literal) :
    lexer.Stands ((lexer.tokenHere kind (lexer.rest.take n)).withLiteral literal) := by
  obtain ⟨part, hpart, hget, hcolumn⟩ := h.exists_part (hlexer.line_eq hne)
  refine ⟨hlexer.line_pos, ?_, _, hget, part, ?_⟩
  · change String.ofList (lexer.rest.take n) ≠ ""
    rw [ne_eq, ← String.toList_eq_nil_iff, String.toList_ofList, List.take_eq_nil_iff]
    exact not_or_intro hpos.ne' hne
  · obtain ⟨more, hmore⟩ := Text.take_prefix_body hn
    refine ⟨more, ?_, congrArg (· + 1) hcolumn, ?_⟩
    · change _ = part ++ (String.ofList (lexer.rest.take n)).toList ++ more
      rw [String.toList_ofList, Text.body_append hpart, List.append_assoc, hmore]
    · change lexer.column + lexer.tab.span (lexer.rest.take n) + 1 =
        lexer.tab.span (part ++ (String.ofList (lexer.rest.take n)).toList) + 1
      rw [String.toList_ofList, TabStop.span_append, hcolumn]

/-- A newline at the current place, with nothing of the line before it, stands behind the line. -/
theorem Aligned.trails (h : lexer.Aligned) (hlexer : lexer.Regular)
    (hbody : Text.body lexer.rest = [])
    (hunread : lexer.line ≠ lexer.lines.size → lexer.unread = [])
    (hline : t.line = lexer.line) (hstart : t.startColumn = lexer.column + 1) : lexer.Trails t := by
  by_cases hcurrent : lexer.line = lexer.lines.size
  · obtain ⟨part, hpart, hget, hcolumn⟩ := h.exists_part hcurrent
    refine .line (hline ▸ hlexer.line_pos) (hline ▸ hget) ?_
    rw [Text.body_append hpart, hbody, List.append_nil, hstart, hcolumn]
  · exact .noLine (hline ▸ Nat.lt_of_le_of_ne h.size_le (Ne.symm hcurrent)) (hunread hcurrent)

theorem Aligned.behind (h : lexer.Aligned) (hlexer : lexer.Regular) (hne : lexer.rest ≠ [])
    {lexeme : Lexeme} (hscan : Lexeme.scan? lexer.rest = some lexeme) :
    (lexer.behind lexeme).Aligned := by
  have hline := hlexer.line_eq hne
  have hopeners : ∀ opener ∈ (lexer.behind lexeme).openers, (lexer.behind lexeme).Stands opener :=
    fun opener ho => (h.openers opener ho).onward (.of_eq rfl rfl rfl rfl)
  rcases Lexeme.scan_line hlexer.rest hne hscan with ⟨-, hnewline, -⟩ | ⟨hsize, hnewline, -⟩
  · have hnext : (lexer.behind lexeme).line = lexer.lines.size + 1 :=
      (if_pos hnewline).trans (congrArg (· + 1) hline)
    refine ⟨hnext ▸ Nat.le_succ _, fun hcurrent => ?_, hopeners⟩
    have hsame : (lexer.behind lexeme).line = lexer.lines.size := hcurrent
    omega
  · refine ⟨hline.ge.trans (if_neg hnewline).ge, fun _ => ?_, hopeners⟩
    obtain ⟨part, hpart, hlast, hcolumn⟩ := h.column hline
    refine ⟨part ++ lexer.rest.take lexeme.size, ?_, ?_, ?_⟩
    · exact List.forall_mem_append.2
        ⟨hpart, fun c hc => Text.isLineBreak_of_mem_take hsize hc⟩
    · rw [rest_behind, List.append_assoc, List.take_append_drop]
      exact hlast
    · change lexer.column + lexer.tab.span _ = lexer.tab.span _
      rw [hcolumn, TabStop.span_append]

/-! ## Requests -/

/-- What a request gives : a token that stands at its columns, a newline behind its line, or an
error that blames what stands at its columns. -/
structure Aligned.Gives (reply : Reply Token) : Prop where
  aligned : reply.2.Aligned
  token : ∀ t, reply.1 = .ok t → t.kind ≠ .newline → t.kind ≠ .endMarker → reply.2.Stands t
  newline : ∀ t, reply.1 = .ok t → t.kind = .newline → reply.2.Trails t
  error : ∀ e, reply.1 = .error e → ∃ cause t, e = .located (reply.2.blame cause t) ∧
    reply.2.Stands t

theorem Aligned.gives_refuse (h : lexer.Aligned) {openers : List Token}
    (hsub : openers ⊆ lexer.openers) {cause : Cause} (ht : lexer.Stands t) :
    Aligned.Gives ({ lexer with openers }.refuse cause t) where
  aligned := h.withOpeners fun opener ho => h.openers opener (hsub ho)
  token t' ht' := by simp [refuse] at ht'
  newline t' ht' := by simp [refuse] at ht'
  error e he := ⟨cause, t, by simpa [refuse, eq_comm] using he, ht.onward (.of_eq rfl rfl rfl rfl)⟩

theorem bodyLength_pos_of_scan_eq_none {text : List Char} (hline : Text.IsLine text)
    (hne : text ≠ []) (hscan : Lexeme.scan? text = none) : 0 < Text.bodyLength text := by
  refine Nat.pos_of_ne_zero fun hbody => ?_
  obtain ⟨lexeme, hlexeme, -⟩ := Lexeme.scan_lineBreak hline hne hbody
  simp [hscan] at hlexeme

/-- What is refused on the current line is a part of it. -/
theorem Regular.scan_parts (hlexer : lexer.Regular) {c : Char} (hne : lexer.rest ≠ []) :
    (∃ cause kind n literal openers, 0 < n ∧ n ≤ Text.bodyLength lexer.rest ∧
      openers ⊆ lexer.openers ∧ lexer.scan c = { lexer with openers }.refuse cause
        ((lexer.tokenHere kind (lexer.rest.take n)).withLiteral literal)) ∨
    ∃ lexeme literal, ∃ t : Token, Lexeme.scan? lexer.rest = some lexeme ∧
      t = (lexer.tokenHere lexeme.kind (lexer.rest.take lexeme.size)).withLiteral literal ∧
      lexer.scan c = (.ok t, { lexer.behind lexeme with openers := t.nesting lexer.openers }) := by
  rcases hscan : Lexeme.scan? lexer.rest with _ | lexeme
  · have hpos := bodyLength_pos_of_scan_eq_none hlexer.rest hne hscan
    refine .inl ⟨.illegalCharacter c, .error, _, .text (String.ofList (Text.body lexer.rest)),
      lexer.openers, hpos, Nat.le_refl _, List.Subset.refl _, ?_⟩
    rw [scan_of_none hscan, ← Text.body_eq_take]
    rfl
  have hbreak_or := Lexeme.scan_line hlexer.rest hne hscan
  set text := lexer.rest.take lexeme.size with htext
  rcases hliteral : Lexeme.literal? lexeme.kind text with _ | literal
  · obtain ⟨hsize, -⟩ := hbreak_or.resolve_left fun hbreak => by
      simp [Lexeme.literal?, hbreak.2.1] at hliteral
    exact .inl ⟨.invalidNumber, lexeme.kind, lexeme.size, .text (String.ofList text), lexer.openers,
      lexeme.size_pos, hsize, List.Subset.refl _, scan_of_no_literal hscan hliteral c⟩
  set t := (lexer.tokenHere lexeme.kind text).withLiteral literal with ht
  have haccept := scan_of_literal hscan hliteral c
  rcases lexer.accept_cases t text with ⟨openers, hsub, heq⟩ | heq
  · obtain ⟨hsize, -⟩ := hbreak_or.resolve_left fun hbreak => by
      have hkind : t.kind = .newline := hbreak.2.1
      simp [accept, hkind, refuse] at heq
    exact .inl ⟨.extraneous t.text, lexeme.kind, lexeme.size, literal, openers, lexeme.size_pos,
      hsize, hsub, haccept.trans heq⟩
  · exact .inr ⟨lexeme, literal, t, rfl, rfl, haccept.trans heq⟩

theorem Aligned.gives_scan (h : lexer.Aligned) (hlexer : lexer.Regular) {c : Char}
    (hne : lexer.rest ≠ []) : Aligned.Gives (lexer.scan c) := by
  rcases hlexer.scan_parts (c := c) hne with
    ⟨cause, kind, n, literal, openers, hpos, hn, hsub, heq⟩ |
    ⟨lexeme, literal, t, hscan, ht, heq⟩
  · rw [heq]
    exact h.gives_refuse hsub (h.stands hlexer hne hpos hn literal)
  · have hkind : t.kind = lexeme.kind := by rw [ht]; rfl
    have hbehind := h.behind hlexer hne hscan
    have hline := Lexeme.scan_line hlexer.rest hne hscan
    have hstands (hnewline : t.kind ≠ .newline) : lexer.Stands t := by
      obtain ⟨hsize, -⟩ := hline.resolve_left fun hbreak => hnewline (hkind.trans hbreak.2.1)
      exact ht ▸ h.stands hlexer hne lexeme.size_pos hsize literal
    rw [heq]
    refine ⟨hbehind.withOpeners fun opener ho => ?_, fun t' ht' hnewline _ => ?_,
      fun t' ht' hnewline => ?_, by simp⟩
    · by_cases hnewline : t.kind = .newline
      · rw [Token.nesting, hnewline] at ho
        exact hbehind.openers opener ho
      · rcases Token.mem_nesting ho with rfl | ho
        · exact (hstands hnewline).onward (.of_eq rfl rfl rfl rfl)
        · exact hbehind.openers opener ho
    · obtain rfl : t = t' := Except.ok.inj ht'
      exact (hstands hnewline).onward (.of_eq rfl rfl rfl rfl)
    · obtain rfl : t = t' := Except.ok.inj ht'
      obtain ⟨hbody, -⟩ := hline.resolve_right fun hinside => hinside.2.1 (hkind ▸ hnewline)
      refine (h.trails hlexer ?_ ?_ ?_ ?_).onward (.of_eq rfl rfl rfl rfl)
      · exact List.eq_nil_of_length_eq_zero hbody
      · exact fun hcurrent => absurd (hlexer.line_eq hne) hcurrent
      · rw [ht]; rfl
      · rw [ht]; rfl

theorem Aligned.gives_finish (h : lexer.Aligned) (hlexer : lexer.Regular) (hrest : lexer.rest = [])
    (hunread : lexer.unread = []) : Aligned.Gives lexer.finish := by
  obtain ⟨opener, hopener, heq⟩ | ⟨-, -, heq⟩ | ⟨-, -, heq⟩ := lexer.finish_cases <;> rw [heq]
  · exact h.gives_refuse (List.Subset.refl _) (h.openers opener (List.mem_of_getLast? hopener))
  · refine ⟨⟨Nat.le_succ_of_le h.size_le, fun hcurrent => ?_, ?_⟩, fun t ht hnewline => ?_,
      fun t ht _ => ?_, by simp⟩
    · have := h.size_le
      exact absurd hcurrent (by dsimp only; omega)
    · exact fun opener ho => (h.openers opener ho).onward (.of_eq rfl rfl rfl rfl)
    · obtain rfl := Except.ok.inj ht
      exact absurd rfl hnewline
    · obtain rfl := Except.ok.inj ht
      have htrails : lexer.Trails (.synthetic .newline lexer.line (lexer.column + 1)) :=
        h.trails hlexer (by rw [hrest]; rfl) (fun _ => hunread) rfl rfl
      exact htrails.onward (.of_eq rfl rfl rfl rfl)
  · refine ⟨h, fun t ht _ hmark => ?_, fun t ht hnewline => ?_, by simp⟩
    · obtain rfl := Except.ok.inj ht
      exact absurd rfl hmark
    · obtain rfl := Except.ok.inj ht
      simp [Token.synthetic] at hnewline

/-- Every request keeps count of the columns. -/
theorem Aligned.gives_nextToken (h : lexer.Aligned) (hlexer : lexer.Regular) :
    Aligned.Gives lexer.nextToken := by
  obtain ⟨start, hstart, haligned, ⟨c, tail, hrest, -, hreply⟩ | ⟨hrest, hunread, hreply⟩⟩ :=
    hlexer.nextToken_of_kept h (fun _ haligned => haligned.skipBlanks)
      (fun hstart haligned hrest hunread =>
        haligned.enterLine (hstart.next_line hrest (by simp [hunread])))
  · exact hreply ▸ haligned.gives_scan hstart (by simp [hrest])
  · exact hreply ▸ haligned.gives_finish hstart hrest hunread

end

/-! ## Runs -/

theorem aligned_ofSource (source : Source) : (ofSource source).Aligned where
  size_le := Nat.zero_le _
  column hline := by simp [ofSource] at hline
  openers opener ho := absurd ho List.not_mem_nil

variable {lexer : Lexer}

theorem Aligned.after (h : lexer.Aligned) (hlexer : lexer.Regular) : ∀ n, (lexer.after n).Aligned
  | 0 => h
  | n + 1 => ((h.after hlexer n).gives_nextToken (hlexer.after n)).aligned

theorem Aligned.item_stands (h : lexer.Aligned) (hlexer : lexer.Regular) {n : Nat} {t : Token}
    (ht : lexer.item n = .ok (some t)) (hnewline : t.kind ≠ .newline)
    (hmark : t.kind ≠ .endMarker) :
    (lexer.after (n + 1)).Stands t :=
  ((h.after hlexer n).gives_nextToken (hlexer.after n)).token t
    (congrArg Prod.fst (item_eq_ok_iff.1 ht)) hnewline hmark

theorem Aligned.item_trails (h : lexer.Aligned) (hlexer : lexer.Regular) {n : Nat} {t : Token}
    (ht : lexer.item n = .ok (some t)) (hnewline : t.kind = .newline) :
    (lexer.after (n + 1)).Trails t :=
  ((h.after hlexer n).gives_nextToken (hlexer.after n)).newline t
    (congrArg Prod.fst (item_eq_ok_iff.1 ht)) hnewline

theorem Aligned.item_error (h : lexer.Aligned) (hlexer : lexer.Regular) {n : Nat} {e : ScriptError}
    (he : lexer.item n = .error e) : ∃ cause t,
      e = .located ((lexer.after (n + 1)).blame cause t) ∧ (lexer.after (n + 1)).Stands t :=
  ((h.after hlexer n).gives_nextToken (hlexer.after n)).error e (item_eq_error_iff.1 he)

end Lexer

end OpticScript
