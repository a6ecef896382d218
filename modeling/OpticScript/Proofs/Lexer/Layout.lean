import OpticScript.Proofs.Lexer.Regular
import OpticScript.Proofs.Text.Lines

/-!
# Where tokens stand

The tokens of a text and the blanks around them make up the text (`Spells`). A line has a
group of tokens of its own : they bear its number and only the last of them is a newline
(`FillsLine`).

A lexer of a text stands between two lines or inside of one, and the tokens that it has
given are those of the lines that are used up and of the part of the current line that is
(`Lexer.Layout`). Every request keeps that (`Layout.gives_nextToken`), so it holds up to
the end (`layout_after`). Hence nothing of the text is lost (`toEnd_covers`), and the
tokens are counted by the lines of the text that they stand on (`toEnd_lines`).
-/

namespace OpticScript

/-! ## Tokens and texts -/

/-- The texts of the tokens, with blanks before, between and behind them, make up a text. -/
inductive Spells : List Token → List Char → Prop
  | nil : Spells [] []
  | blank {tokens : List Token} {text : List Char} (h : Spells tokens text) {c : Char}
      (hc : Lexer.isBlank c = true) : Spells tokens (text ++ [c])
  | token {tokens : List Token} {text : List Char} (h : Spells tokens text) (t : Token) :
      Spells (tokens ++ [t]) (text ++ t.text.toList)

/-- The tokens of a whole line, which has this number. The last one is a newline, and it
has no text if the line has no end; the others have some. -/
structure FillsLine (line : List Char) (number : Nat) (tokens : List Token) : Prop where
  spells : Spells tokens line
  line_eq : ∀ t ∈ tokens, t.line = number ∧ t.kind ≠ .endMarker
  closed : ∃ body newline, tokens = body ++ [newline] ∧
    (∀ t ∈ body, t.kind ≠ .newline ∧ t.text ≠ "") ∧
    newline.kind = .newline ∧ (newline.text = "" ↔ ¬Text.EndsLine line)

/-- The tokens of a part of a line in front of its end. -/
structure BeginsLine (part : List Char) (number : Nat) (tokens : List Token) : Prop where
  spells : Spells tokens part
  line_eq : ∀ t ∈ tokens, t.line = number ∧ t.kind ≠ .endMarker
  unclosed : ∀ t ∈ tokens, t.kind ≠ .newline ∧ t.text ≠ ""
  unbroken : ∀ c ∈ part, Text.isLineBreak c = false

/-- A group of tokens for each of the lines, which are counted from one. -/
inductive FillLines : List (List Char) → List (List Token) → Prop
  | nil : FillLines [] []
  | concat {lines : List (List Char)} {groups : List (List Token)} (h : FillLines lines groups)
      {line : List Char} {group : List Token} (hgroup : FillsLine line (lines.length + 1) group) :
      FillLines (lines ++ [line]) (groups ++ [group])

/-- The token was read from the line with its number : the tokens before it make up the
lines before that one, and the part of it that stands in front of the token. -/
def Token.ReadFrom (t : Token) (lines : List (List Char)) (before : List Token) : Prop :=
  ∃ part more, 1 ≤ t.line ∧ lines[t.line - 1]? = some (part ++ t.text.toList ++ more) ∧
    Spells before ((lines.take (t.line - 1)).flatten ++ part)

section

variable {tokens tokens' : List Token} {text text' part : List Char} {number : Nat} {t : Token}
  {lines lines' : List (List Char)} {groups : List (List Token)}

theorem Spells.append (h : Spells tokens text) (h' : Spells tokens' text') :
    Spells (tokens ++ tokens') (text ++ text') := by
  induction h' with
  | nil => simpa using h
  | blank _ hc ih => simpa using ih.blank hc
  | token _ t ih => simpa using ih.token t

theorem Spells.blanks (h : Spells tokens text) {gap : List Char}
    (hgap : ∀ c ∈ gap, Lexer.isBlank c = true) : Spells tokens (text ++ gap) := by
  induction gap generalizing text with
  | nil => simpa using h
  | cons c gap ih =>
    obtain ⟨hc, hgap⟩ := List.forall_mem_cons.1 hgap
    simpa using ih (h.blank hc) hgap

theorem BeginsLine.nil (number : Nat) : BeginsLine [] number [] where
  spells := .nil
  line_eq := by simp
  unclosed := by simp
  unbroken := by simp

theorem BeginsLine.blanks (h : BeginsLine part number tokens) {gap : List Char}
    (hgap : ∀ c ∈ gap, Lexer.isBlank c = true) : BeginsLine (part ++ gap) number tokens where
  spells := h.spells.blanks hgap
  line_eq := h.line_eq
  unclosed := h.unclosed
  unbroken c hc := by
    rcases List.mem_append.1 hc with hc | hc
    · exact h.unbroken c hc
    · refine Text.isLineBreak_eq_false.2 ?_
      constructor <;> (rintro rfl; simpa [Lexer.isBlank] using hgap _ hc)

theorem BeginsLine.token (h : BeginsLine part number tokens) (hline : t.line = number)
    (hmark : t.kind ≠ .endMarker) (hnewline : t.kind ≠ .newline) (hne : t.text ≠ "")
    (htext : ∀ c ∈ t.text.toList, Text.isLineBreak c = false) :
    BeginsLine (part ++ t.text.toList) number (tokens ++ [t]) where
  spells := h.spells.token t
  line_eq := List.forall_mem_append.2 ⟨h.line_eq, List.forall_mem_singleton.2 ⟨hline, hmark⟩⟩
  unclosed := List.forall_mem_append.2 ⟨h.unclosed, List.forall_mem_singleton.2 ⟨hnewline, hne⟩⟩
  unbroken c hc := (List.mem_append.1 hc).elim (h.unbroken c) (htext c)

/-- A newline after a part of a line is the end of the line. -/
theorem BeginsLine.close (h : BeginsLine part number tokens) (hline : t.line = number)
    (hnewline : t.kind = .newline)
    (htext : t.text = "" ↔ ¬Text.EndsLine (part ++ t.text.toList)) :
    FillsLine (part ++ t.text.toList) number (tokens ++ [t]) where
  spells := h.spells.token t
  line_eq := List.forall_mem_append.2
    ⟨h.line_eq, List.forall_mem_singleton.2 ⟨hline, by simp [hnewline]⟩⟩
  closed := ⟨tokens, t, rfl, h.unclosed, hnewline, htext⟩

theorem BeginsLine.not_endsLine (h : BeginsLine part number tokens) : ¬Text.EndsLine part := by
  intro hends
  obtain ⟨c, hc, hbreak⟩ := (Option.any_eq_true _ _).1 hends
  simp [h.unbroken c (List.mem_of_getLast? hc)] at hbreak

/-- The tokens of some lines make up these lines. -/
theorem FillLines.spells (h : FillLines lines groups) : Spells groups.flatten lines.flatten := by
  induction h with
  | nil => exact .nil
  | concat _ hgroup ih => simpa using ih.append hgroup.spells

theorem FillLines.newline (h : FillLines lines groups) (hne : lines ≠ []) :
    ∃ before t, groups.flatten = before ++ [t] ∧ t.kind = .newline := by
  cases h with
  | nil => exact absurd rfl hne
  | @concat _ groups _ _ group hgroup =>
    obtain ⟨body, newline, rfl, -, hkind, -⟩ := hgroup.closed
    exact ⟨groups.flatten ++ body, newline, by simp, hkind⟩

theorem Token.ReadFrom.append (h : t.ReadFrom lines tokens) (lines' : List (List Char)) :
    t.ReadFrom (lines ++ lines') tokens := by
  obtain ⟨part, more, hpos, hline, hspells⟩ := h
  have hlt : t.line - 1 < lines.length := (List.getElem?_eq_some_iff.1 hline).1
  refine ⟨part, more, hpos, ?_, ?_⟩
  · rwa [List.getElem?_append_left hlt]
  · rwa [List.take_append_of_le_length hlt.le]

end

/-! ## Lexers -/

namespace Lexer

/-- The lines that have been read. -/
def texts (lexer : Lexer) : List (List Char) := lexer.lines.toList.map String.toList

/-- The lines that have been read. A text of no lines counts as an empty one. -/
def heldLines (lexer : Lexer) : List (List Char) :=
  if lexer.lines = #[] ∧ lexer.unread = [] then [[]] else lexer.texts

/-- Every line that is held is used up. -/
structure Between (lexer : Lexer) (groups : List (List Token)) : Prop where
  filled : FillLines lexer.heldLines groups
  rest_eq : lexer.rest = []
  line_eq : lexer.line = lexer.heldLines.length + 1
  terminated : lexer.unread = [] → lexer.unterminated = false

/-- The last line that is held is used up as far as `part`. -/
structure Inside (lexer : Lexer) (earlier : List (List Char)) (groups : List (List Token))
    (part : List Char) (current : List Token) : Prop where
  held_eq : lexer.heldLines = earlier ++ [part ++ lexer.rest]
  filled : FillLines earlier groups
  begun : BeginsLine part (earlier.length + 1) current
  line_eq : lexer.line = earlier.length + 1
  unterminated_iff : lexer.unterminated = true ↔ ¬Text.EndsLine (part ++ lexer.rest)

/-- The lexer has given these tokens for what it has used up of its lines. -/
inductive Layout (lexer : Lexer) (tokens : List Token) : Prop
  | between {groups : List (List Token)} (h : lexer.Between groups)
      (htokens : tokens = groups.flatten)
  | inside {earlier : List (List Char)} {groups : List (List Token)} {part : List Char}
      {current : List Token} (h : lexer.Inside earlier groups part current)
      (htokens : tokens = groups.flatten ++ current)

section

variable {lexer : Lexer} {tokens current : List Token} {earlier : List (List Char)}
  {groups : List (List Token)} {part text : List Char} {piece : Piece} {more : List Piece}

theorem heldLines_of_unread (h : lexer.unread ≠ []) : lexer.heldLines = lexer.texts :=
  if_neg fun hnil => h hnil.2

theorem heldLines_of_lines (h : lexer.lines ≠ #[]) : lexer.heldLines = lexer.texts :=
  if_neg fun hnil => h hnil.1

theorem heldLines_ne_nil (h : lexer.unread = []) : lexer.heldLines ≠ [] := by
  unfold heldLines
  split
  · simp
  · rename_i hne
    simpa [texts, h] using hne

theorem flatten_heldLines (lexer : Lexer) : lexer.heldLines.flatten = lexer.texts.flatten := by
  unfold heldLines
  split
  · rename_i h
    simp [texts, h.1]
  · rfl

theorem texts_enterLine (lexer : Lexer) (text : List Char) :
    (lexer.enterLine text).texts = lexer.texts ++ [text] := by
  simp [texts, enterLine]

/-! ## Blanks and lines -/

theorem Between.skipBlanks (h : lexer.Between groups) : lexer.skipBlanks.Between groups where
  filled := h.filled
  rest_eq := by
    rw [rest_skipBlanks, h.rest_eq]
    rfl
  line_eq := h.line_eq
  terminated := h.terminated

theorem Inside.skipBlanks (h : lexer.Inside earlier groups part current) :
    lexer.skipBlanks.Inside earlier groups (part ++ lexer.rest.takeWhile isBlank) current := by
  have happ : part ++ lexer.rest.takeWhile isBlank ++ lexer.skipBlanks.rest =
      part ++ lexer.rest := by
    rw [List.append_assoc, Lexer.skipBlanks, List.takeWhile_append_dropWhile]
  exact {
    held_eq := by
      rw [happ]
      exact h.held_eq
    filled := h.filled
    begun := h.begun.blanks fun c hc => List.mem_takeWhile_imp hc
    line_eq := h.line_eq
    unterminated_iff := by
      rw [happ]
      exact h.unterminated_iff }

theorem Layout.skipBlanks (h : lexer.Layout tokens) : lexer.skipBlanks.Layout tokens := by
  cases h with
  | between h htokens => exact .between h.skipBlanks htokens
  | inside h htokens => exact .inside h.skipBlanks htokens

/-- A line is used up to its newline before the next one is read. -/
theorem Inside.unread_eq (h : lexer.Inside earlier groups part current) (hlexer : lexer.Regular)
    (hrest : lexer.rest = []) : lexer.unread = [] := by
  by_contra hne
  have hnext := hlexer.next_line hrest hne
  have hheld := congrArg List.length h.held_eq
  rw [heldLines_of_unread hne] at hheld
  simp only [texts, List.length_map, Array.length_toList, List.length_append,
    List.length_singleton] at hheld
  have := h.line_eq
  omega

theorem Between.enterLine (h : lexer.Between groups) (hunread : lexer.unread = .line text :: more) :
    ({ lexer with unread := more }.enterLine text).Inside lexer.heldLines groups [] [] where
  held_eq := by
    rw [heldLines_of_lines (by simp [Lexer.enterLine]), heldLines_of_unread (by simp [hunread]),
      texts_enterLine]
    rfl
  filled := h.filled
  begun := .nil _
  line_eq := h.line_eq
  unterminated_iff := by simp [Lexer.enterLine, Text.EndsLine]

theorem Layout.enterLine (h : lexer.Layout tokens) (hlexer : lexer.Regular)
    (hrest : lexer.rest = []) (hunread : lexer.unread = .line text :: more) :
    ({ lexer with unread := more }.enterLine text).Layout tokens := by
  cases h with
  | between h htokens => exact .inside (h.enterLine hunread) (by simpa using htokens)
  | inside h htokens => simp [h.unread_eq hlexer hrest] at hunread

/-! ## Tokens -/

theorem Layout.withOpeners (h : lexer.Layout tokens) (openers : List Token) :
    { lexer with openers }.Layout tokens := by
  cases h with
  | between h htokens => exact .between ⟨h.filled, h.rest_eq, h.line_eq, h.terminated⟩ htokens
  | inside h htokens =>
    exact .inside ⟨h.held_eq, h.filled, h.begun, h.line_eq, h.unterminated_iff⟩ htokens

section

variable (h : lexer.Inside earlier groups part current) {lexeme : Lexeme} {t : Token}
  (hkind : t.kind = lexeme.kind) (hline : t.line = lexer.line)
  (htext : t.text.toList = lexer.rest.take lexeme.size) (hne : t.text ≠ "")

include h hkind hline htext hne

/-- A line break is the end of the line. -/
theorem Inside.endLine (hnewline : lexeme.kind = .newline) (hsize : lexeme.size = lexer.rest.length)
    (hends : Text.EndsLine lexer.rest) :
    (lexer.behind lexeme).Between (groups ++ [current ++ [t]]) := by
  have hwhole : t.text.toList = lexer.rest := by rw [htext, hsize, List.take_length]
  have hended : Text.EndsLine (part ++ lexer.rest) := hends.append part
  have hgroup : FillsLine (part ++ lexer.rest) (earlier.length + 1) (current ++ [t]) := by
    rw [← hwhole] at hended ⊢
    exact h.begun.close (hline.trans h.line_eq) (hkind.trans hnewline)
      (iff_of_false hne (not_not_intro hended))
  have hheld : (lexer.behind lexeme).heldLines = earlier ++ [part ++ lexer.rest] := h.held_eq
  exact {
    filled := hheld ▸ h.filled.concat hgroup
    rest_eq := by rw [rest_behind, hsize, List.drop_length]
    line_eq := by
      have hend : (lexer.behind lexeme).line = lexer.line + 1 := if_pos hnewline
      simp [hend, hheld, h.line_eq]
    terminated := fun _ => Bool.eq_false_iff.2 fun hu => h.unterminated_iff.1 hu hended }

/-- Any other lexeme is the next part of the line. -/
theorem Inside.advance (hnewline : lexeme.kind ≠ .newline) (hmarker : lexeme.kind ≠ .endMarker)
    (hsize : lexeme.size ≤ Text.bodyLength lexer.rest) :
    (lexer.behind lexeme).Inside earlier groups (part ++ t.text.toList) (current ++ [t]) := by
  have happ : part ++ t.text.toList ++ (lexer.behind lexeme).rest = part ++ lexer.rest := by
    rw [htext, rest_behind, List.append_assoc, List.take_append_drop]
  exact {
    held_eq := by
      rw [happ]
      exact h.held_eq
    filled := h.filled
    begun := h.begun.token (hline.trans h.line_eq) (hkind ▸ hmarker) (hkind ▸ hnewline) hne
      fun c hc => Text.isLineBreak_of_mem_take hsize (htext ▸ hc)
    line_eq := (if_neg hnewline).trans h.line_eq
    unterminated_iff := by
      rw [happ]
      exact h.unterminated_iff }

end

/-- The lexer behind a lexeme has accounted for it. -/
theorem Inside.behind (h : lexer.Inside earlier groups part current) (hlexer : lexer.Regular)
    (hne : lexer.rest ≠ []) {lexeme : Lexeme} (hscan : Lexeme.scan? lexer.rest = some lexeme)
    {t : Token} (hkind : t.kind = lexeme.kind) (hline : t.line = lexer.line)
    (htext : t.text.toList = lexer.rest.take lexeme.size) :
    (lexer.behind lexeme).Layout (groups.flatten ++ current ++ [t]) ∧ t.kind ≠ .endMarker := by
  have hsome : t.text ≠ "" := by
    rw [ne_eq, ← String.toList_eq_nil_iff, htext, List.take_eq_nil_iff]
    exact not_or_intro lexeme.size_pos.ne' hne
  rcases Lexeme.scan_line hlexer.rest hne hscan with
    ⟨hbody, hnewline, hsize⟩ | ⟨hsize, hnewline, hmarker⟩
  · have hends := hlexer.rest.endsLine hne hbody
    exact ⟨.between (h.endLine hkind hline htext hsome hnewline hsize hends) (by simp),
      by simp [hkind, hnewline]⟩
  · exact ⟨.inside (h.advance hkind hline htext hsome hnewline hmarker hsize)
      (List.append_assoc _ _ _), hkind ▸ hmarker⟩

/-- A newline of no text is the end of a line that has none. -/
theorem Inside.finish (h : lexer.Inside earlier groups part current) (hrest : lexer.rest = [])
    {t : Token} (hkind : t.kind = .newline) (hline : t.line = lexer.line) (htext : t.text = "") :
    { lexer with line := lexer.line + 1, column := 0, unterminated := false }.Between
      (groups ++ [current ++ [t]]) := by
  have hnil : t.text.toList = [] := String.toList_eq_nil_iff.2 htext
  have hgroup : FillsLine part (earlier.length + 1) (current ++ [t]) := by
    have := h.begun.close (hline.trans h.line_eq) hkind
      (iff_of_true htext (by simpa [hnil] using h.begun.not_endsLine))
    simpa [hnil] using this
  have hheld : lexer.heldLines = earlier ++ [part] := by simpa [hrest] using h.held_eq
  exact {
    filled := by
      change FillLines lexer.heldLines _
      exact hheld ▸ h.filled.concat hgroup
    rest_eq := hrest
    line_eq := by
      change lexer.line + 1 = lexer.heldLines.length + 1
      simp [hheld, h.line_eq]
    terminated := fun _ => rfl }

/-- A token that comes next on the line is read from it. -/
theorem Inside.readFrom (h : lexer.Inside earlier groups part current) {t : Token}
    (hline : t.line = lexer.line) {text' : List Char}
    (hrest : lexer.rest = t.text.toList ++ text') :
    t.ReadFrom lexer.heldLines (groups.flatten ++ current) := by
  have hnumber : t.line - 1 = earlier.length := by rw [hline, h.line_eq, Nat.add_sub_cancel]
  refine ⟨part, text', ?_, ?_, ?_⟩
  · rw [hline, h.line_eq]
    exact Nat.le_add_left 1 _
  · rw [hnumber, h.held_eq, List.getElem?_concat_length, hrest, List.append_assoc]
  · rw [hnumber, h.held_eq, List.take_left]
    exact h.filled.spells.append h.begun.spells

/-! ## Requests -/

/-- What a request gives after these tokens. -/
structure Layout.Gives (tokens : List Token) (reply : Reply Token) : Prop where
  error : ∀ e, reply.1 = .error e → reply.2.Layout tokens
  token : ∀ t, reply.1 = .ok t → t.kind ≠ .endMarker →
    reply.2.Layout (tokens ++ [t]) ∧ t.ReadFrom reply.2.heldLines tokens
  mark : ∀ t, reply.1 = .ok t → t.kind = .endMarker →
    t = .synthetic .endMarker reply.2.line 1 ∧ reply.2.unread = [] ∧
      ∃ groups, reply.2.Between groups ∧ tokens = groups.flatten

theorem Layout.gives_refuse (h : lexer.Layout tokens) (openers : List Token) (cause : Cause)
    (t : Token) : Layout.Gives tokens ({ lexer with openers }.refuse cause t) where
  error _ _ := h.withOpeners openers
  token t ht := by simp [refuse] at ht
  mark t ht := by simp [refuse] at ht

theorem Layout.gives_scan (h : lexer.Layout tokens) (hlexer : lexer.Regular) {c : Char}
    {tail : List Char} (hrest : lexer.rest = c :: tail) :
    Layout.Gives tokens (lexer.scan c) := by
  rcases lexer.scan_cases c with ⟨cause, t, openers, -, -, -, heq⟩ |
    ⟨lexeme, literal, t, hscan, -, ht, heq⟩
  · exact heq ▸ h.gives_refuse openers cause t
  · cases h with
    | between h => simp [h.rest_eq] at hrest
    | inside h htokens =>
      have htext : t.text.toList = lexer.rest.take lexeme.size := by
        rw [ht]
        exact String.toList_ofList
      have hline : t.line = lexer.line := by rw [ht]; rfl
      obtain ⟨hlayout, hmark⟩ :=
        h.behind hlexer (by simp [hrest]) hscan (by rw [ht]; rfl) hline htext
      rw [heq]
      refine ⟨by simp, fun t' ht' _ => ?_, fun t' ht' hkind => ?_⟩
      · obtain rfl : t = t' := Except.ok.inj ht'
        rw [htokens]
        exact ⟨hlayout.withOpeners _,
          h.readFrom hline (htext ▸ (List.take_append_drop lexeme.size lexer.rest).symm)⟩
      · obtain rfl : t = t' := Except.ok.inj ht'
        exact absurd hkind hmark

theorem Layout.gives_finish (h : lexer.Layout tokens) (hrest : lexer.rest = [])
    (hunread : lexer.unread = []) : Layout.Gives tokens lexer.finish := by
  obtain ⟨opener, -, heq⟩ | ⟨-, hu, heq⟩ | ⟨-, hu, heq⟩ := lexer.finish_cases <;> rw [heq]
  · exact h.gives_refuse lexer.openers _ _
  · cases h with
    | between h htokens => simp [h.terminated hunread] at hu
    | @inside earlier groups part current h htokens =>
      refine ⟨by simp, fun t ht _ => ?_, fun t ht hkind => ?_⟩
      · obtain rfl := Except.ok.inj ht
        let t : Token := .synthetic .newline lexer.line (lexer.column + 1)
        have hbetween := h.finish (t := t) hrest rfl rfl rfl
        rw [htokens]
        exact ⟨.between hbetween (by simp [t]), h.readFrom rfl hrest⟩
      · obtain rfl := Except.ok.inj ht
        simp [Token.synthetic] at hkind
  · cases h with
    | between h htokens =>
      refine ⟨by simp, fun t ht hkind => ?_, fun t ht _ => ?_⟩
      · obtain rfl := Except.ok.inj ht
        exact absurd rfl hkind
      · obtain rfl := Except.ok.inj ht
        exact ⟨rfl, hunread, _, h, htokens⟩
    | inside h =>
      have hlacks := h.unterminated_iff.2 (by simpa [hrest] using h.begun.not_endsLine)
      simp [hu] at hlacks

/-- Every request keeps account of the tokens. -/
theorem Layout.gives_nextToken (h : lexer.Layout tokens) (hlexer : lexer.Regular) :
    Layout.Gives tokens lexer.nextToken := by
  obtain ⟨start, hstart, hlayout, ⟨c, tail, hrest, -, hreply⟩ | ⟨hrest, hunread, hreply⟩⟩ :=
    hlexer.nextToken_of_kept (P := (·.Layout tokens)) h (fun _ hlayout => hlayout.skipBlanks)
      (fun hstart hlayout hrest hunread => hlayout.enterLine hstart hrest hunread)
  · exact hreply ▸ hlayout.gives_scan hstart hrest
  · exact hreply ▸ hlayout.gives_finish hrest hunread

/-! ## Runs -/

theorem layout_ofSource (name text : String) (tab : TabStop) :
    (ofSource (.ofText name text tab)).Layout [] := by
  rcases hlines : Text.lines text.toList with _ | ⟨line, lines⟩
  · have hunread : (ofSource (.ofText name text tab)).unread = [] := by
      simp [ofSource, Source.ofText, Piece.ofText, hlines]
    have hheld : (ofSource (.ofText name text tab)).heldLines = [[]] := if_pos ⟨rfl, hunread⟩
    have hinside : (ofSource (.ofText name text tab)).Inside [] [] [] [] :=
      ⟨hheld, .nil, .nil _, rfl, by simp [ofSource, Text.EndsLine]⟩
    exact .inside hinside rfl
  · have hunread : (ofSource (.ofText name text tab)).unread ≠ [] := by
      simp [ofSource, Source.ofText, Piece.ofText, hlines]
    have hheld : (ofSource (.ofText name text tab)).heldLines = [] := heldLines_of_unread hunread
    have hbetween : (ofSource (.ofText name text tab)).Between [] :=
      ⟨hheld ▸ .nil, rfl, by rw [hheld]; rfl, fun hnil => absurd hnil hunread⟩
    exact .between hbetween rfl

/-- The tokens that a lexer has given are accounted for up to the end. -/
theorem layout_after (hlexer : lexer.Regular) (h : lexer.Layout []) {wall : Nat}
    (hends : lexer.EndsAt wall) :
    ∀ n ≤ wall, (lexer.after n).Layout (lexer.toEnd.tokens.take n)
  | 0, _ => h
  | n + 1, hn => by
    obtain ⟨t, ht, hkind⟩ := hends.not_wall n hn
    have hnext := item_eq_ok_iff.1 ht
    have hget : lexer.toEnd.tokens[n]? = some t := (hends.toEnd_eq.2.2 n t).2 ⟨Nat.le_of_lt hn, ht⟩
    have hgives :=
      (layout_after hlexer h hends n (Nat.le_of_lt hn)).gives_nextToken (hlexer.after n)
    rw [hnext] at hgives
    rw [List.take_add_one, hget]
    exact (hgives.token t rfl hkind).1

/-- The lines that are read are the first lines of the text, and the others are yet to come. -/
theorem texts_after (name text : String) (tab : TabStop) (n : Nat) : ∃ more,
    Text.lines text.toList = ((ofSource (.ofText name text tab)).after n).texts ++ more ∧
      ((ofSource (.ofText name text tab)).after n).unread = more.map Piece.line := by
  obtain ⟨texts, hunread, hlines⟩ :=
    ((regular_ofSource name text tab).onward (Nat.zero_le n)).read
  have htexts : ((ofSource (.ofText name text tab)).after n).texts = texts := by
    rw [Lexer.texts, hlines]
    simp [after, ofSource]
  obtain ⟨texts', more, hsplit, htexts', hmore⟩ := List.map_eq_append_iff.1 hunread
  obtain rfl : texts' = texts := List.map_injective_iff.2 (fun _ _ => Piece.line.inj) htexts'
  exact ⟨more, htexts ▸ hsplit, hmore.symm⟩

theorem isLine_texts {name text : String} {tab : TabStop} {n : Nat} {line : List Char}
    (h : line ∈ ((ofSource (.ofText name text tab)).after n).texts) : Text.IsLine line := by
  obtain ⟨more, hlines, -⟩ := texts_after name text tab n
  exact Text.isLine_of_mem_lines (hlines ▸ List.mem_append_left more h)

/-- A line that has been read is shown without its end, and with its tabs expanded. -/
theorem sourceLine_eq {n : Nat} {line : List Char} (hn : 1 ≤ n)
    (hline : lexer.texts[n - 1]? = some line) (hisLine : Text.IsLine line) :
    lexer.sourceLine? n =
      some (String.ofList (lexer.tab.expand (line.takeWhile fun c => !Text.isLineBreak c))) := by
  obtain ⟨raw, hraw, rfl⟩ : ∃ raw, lexer.lines[n - 1]? = some raw ∧ raw.toList = line := by
    simpa [texts] using hline
  rw [sourceLine?, if_neg (by omega), hraw, ← hisLine.trim]
  rfl

/-- Lines once read stay where they are. -/
theorem Onward.texts_eq {after : Lexer} (h : lexer.Onward after) :
    ∃ more, after.texts = lexer.texts ++ more := by
  obtain ⟨texts, -, hlines⟩ := h.read
  exact ⟨texts, by simp [Lexer.texts, hlines]⟩

section

variable {name text : String} {tab : TabStop} {wall : Nat}

/-- A token is read from a line of the text, unless the text has none. -/
theorem readFrom_lines (hends : (ofSource (.ofText name text tab)).EndsAt wall)
    (hne : Text.lines text.toList ≠ []) {n : Nat} {t : Token} (hn : n ≤ wall)
    (ht : (ofSource (.ofText name text tab)).item n = .ok (some t)) (hkind : t.kind ≠ .endMarker) :
    let lexer := ofSource (.ofText name text tab)
    t.ReadFrom (lexer.after (n + 1)).texts (lexer.toEnd.tokens.take n) := by
  intro lexer
  have hregular : lexer.Regular := regular_ofSource name text tab
  have hgives := (layout_after hregular (layout_ofSource name text tab) hends n hn).gives_nextToken
    (hregular.after n)
  rw [item_eq_ok_iff.1 ht] at hgives
  obtain ⟨more, htexts, hunread⟩ := texts_after name text tab (n + 1)
  have hheld : (lexer.after (n + 1)).heldLines = (lexer.after (n + 1)).texts := by
    refine if_neg fun hnil => hne ?_
    have hmore : more = [] := List.map_eq_nil_iff.1 (hunread.symm.trans hnil.2)
    rw [htexts, hmore, texts, hnil.1]
    rfl
  exact hheld ▸ (hgives.token t rfl hkind).2

/-- At the end marker all lines are read and used up. -/
theorem between_final {mark : Token} (hends : (ofSource (.ofText name text tab)).EndsAt wall)
    (hmark : (ofSource (.ofText name text tab)).item wall = .ok (some mark)) :
    let scan := (ofSource (.ofText name text tab)).toEnd
    mark = .synthetic .endMarker scan.final.line 1 ∧ scan.final.unread = [] ∧
      scan.final.texts = Text.lines text.toList ∧
      ∃ groups, scan.final.Between groups ∧ scan.tokens.take wall = groups.flatten := by
  have hregular := regular_ofSource name text tab
  have hgives := (layout_after hregular (layout_ofSource name text tab) hends wall
    (Nat.le_refl wall)).gives_nextToken (hregular.after wall)
  rw [item_eq_ok_iff.1 hmark, ← hends.toEnd_eq.1] at hgives
  obtain ⟨heq, hunread, hgroups⟩ := hgives.mark mark rfl (hends.wall mark hmark)
  obtain ⟨more, hlines, hmore⟩ := texts_after name text tab (wall + 1)
  rw [← hends.toEnd_eq.1] at hlines hmore
  have hnil : more = [] := List.map_eq_nil_iff.1 (hmore.symm.trans hunread)
  exact ⟨heq, hunread, by rw [hlines, hnil, List.append_nil], hgroups⟩

/-- The end marker comes after a newline. -/
theorem newline_of_endMarker {mark : Token}
    (hends : (ofSource (.ofText name text tab)).EndsAt wall)
    (hmark : (ofSource (.ofText name text tab)).item wall = .ok (some mark)) :
    ∃ n t, wall = n + 1 ∧ (ofSource (.ofText name text tab)).item n = .ok (some t) ∧
      t.kind = .newline := by
  obtain ⟨-, hunread, -, groups, hbetween, hgroups⟩ := between_final hends hmark
  obtain ⟨before, t, happ, hkind⟩ := hbetween.filled.newline (heldLines_ne_nil hunread)
  rw [happ] at hgroups
  have hwall : wall = before.length + 1 := by
    have hlength := congrArg List.length hgroups
    rcases hends.toEnd_cases with ⟨e, he, -⟩ | ⟨-, -, -, -, htokens, -⟩
    · simp [he] at hmark
    · rw [List.length_take_of_le (by omega)] at hlength
      simpa using hlength
  have hget : (ofSource (.ofText name text tab)).toEnd.tokens[before.length]? = some t := by
    rw [← List.getElem?_take_of_lt (show before.length < wall by omega), hgroups,
      List.getElem?_concat_length]
  exact ⟨before.length, t, hwall, ((hends.toEnd_eq.2.2 _ t).1 hget).2, hkind⟩

end

/-! ## Whole texts -/

/-- The lexer has read the text up to a line, and the tokens make up what it has read but
for the rest of the current line. -/
structure Covers (lexer : Lexer) (text : List Char) (tokens : List Token) : Prop where
  read : ∃ unread, lexer.texts.flatten ++ unread = text ∧
    Text.IsBoundary lexer.texts.flatten unread
  rest : ∀ line ∈ lexer.texts.getLast?, lexer.rest <:+ line
  spelled : ∃ scanned, scanned ++ lexer.rest = lexer.texts.flatten ∧ Spells tokens scanned

theorem Layout.covers (h : lexer.Layout tokens) {lines : List (List Char)}
    (hlines : Text.lines text = lexer.texts ++ lines) : lexer.Covers text tokens where
  read := by
    refine ⟨lines.flatten, ?_, (Text.isLines_lines text).isBoundary hlines⟩
    rw [← List.flatten_append, ← hlines, Text.flatten_lines]
  rest := by
    intro line hline
    cases h with
    | between h => exact h.rest_eq ▸ List.nil_suffix
    | inside h =>
      have hne : lexer.lines ≠ #[] := by
        rintro hnil
        simp [texts, hnil] at hline
      rw [← heldLines_of_lines hne, h.held_eq, List.getLast?_concat] at hline
      obtain rfl := Option.some.inj hline
      exact List.suffix_append _ _
  spelled := by
    rw [← flatten_heldLines]
    cases h with
    | between h htokens =>
      exact ⟨lexer.heldLines.flatten, by simp [h.rest_eq], htokens ▸ h.filled.spells⟩
    | @inside earlier groups part current h htokens =>
      refine ⟨earlier.flatten ++ part, by simp [h.held_eq], ?_⟩
      exact htokens ▸ h.filled.spells.append h.begun.spells

theorem Covers.concat (h : lexer.Covers text tokens) {t : Token} (htext : t.text = "") :
    lexer.Covers text (tokens ++ [t]) where
  read := h.read
  rest := h.rest
  spelled := by
    obtain ⟨scanned, happ, hspells⟩ := h.spelled
    exact ⟨scanned, happ, by simpa [htext] using hspells.token t⟩

/-- Nothing of a text is lost and nothing is made up : at any time the tokens make up what
has been scanned of the lines that have been read, and these are the beginning of the text.
At the end marker they are the whole text. -/
theorem toEnd_covers (name text : String) (tab : TabStop) :
    let lexer := ofSource (.ofText name text tab)
    let scan := lexer.toEnd
    (∀ n ≤ scan.tokens.length, (lexer.after n).Covers text.toList (scan.tokens.take n)) ∧
      scan.final.Covers text.toList scan.tokens ∧
      (scan.failure = none → scan.final.texts.flatten = text.toList ∧ scan.final.rest = [] ∧
        Spells scan.tokens text.toList) := by
  intro lexer scan
  have hregular : lexer.Regular := regular_ofSource name text tab
  obtain ⟨wall, -, hends⟩ := lexer.exists_endsAt
  have hlayout := layout_after hregular (layout_ofSource name text tab) hends
  have hcovers :
      ∀ n ≤ wall, (lexer.after n).Covers text.toList (scan.tokens.take n) := fun n hn => by
    obtain ⟨more, hlines, -⟩ := texts_after name text tab n
    exact (hlayout n hn).covers hlines
  rcases hends.toEnd_cases with ⟨e, hitem, hfailure, hlength⟩ |
    ⟨mark, hitem, -, -, hlength, htokens⟩
  · have hlast : scan.final.Covers text.toList scan.tokens := by
      obtain ⟨more, hlines, -⟩ := texts_after name text tab (wall + 1)
      have hgives := (hlayout wall (Nat.le_refl wall)).gives_nextToken (hregular.after wall)
      have := (hgives.error e (item_eq_error_iff.1 hitem)).covers hlines
      rw [List.take_of_length_le hlength.le] at this
      exact hends.toEnd_eq.1 ▸ this
    exact ⟨fun n hn => hcovers n (hn.trans hlength.le), hlast, fun hnone => by
      simp [scan, hfailure] at hnone⟩
  · obtain ⟨hmark, -, hlines, groups, hbetween, hgroups⟩ := between_final hends hitem
    have hlast : scan.final.Covers text.toList scan.tokens := by
      change scan.final.Covers text.toList lexer.toEnd.tokens
      rw [htokens]
      exact ((Layout.between hbetween hgroups).covers
        (hlines.symm.trans (List.append_nil _).symm)).concat (hmark ▸ rfl)
    refine ⟨fun n hn => ?_, hlast, fun _ => ?_⟩
    · rcases Nat.lt_or_eq_of_le (hn.trans hlength.le) with hlt | rfl
      · exact hcovers n (Nat.le_of_lt_succ hlt)
      · rwa [List.take_of_length_le hlength.le, ← hends.toEnd_eq.1]
    · have hflatten : scan.final.texts.flatten = text.toList := by
        rw [hlines, Text.flatten_lines]
      obtain ⟨scanned, happ, hspells⟩ := hlast.spelled
      rw [hbetween.rest_eq, List.append_nil, hflatten] at happ
      exact ⟨hflatten, hbetween.rest_eq, happ ▸ hspells⟩

/-- A carriage return between two lines, and no end of the second one. -/
theorem toEnd_covers_two_lines :
    let scan := (ofSource (.ofText "" "m [x\r ]\t2")).toEnd
    scan.failure = none ∧ Spells scan.tokens "m [x\r ]\t2".toList := by
  have hnone : (ofSource (.ofText "" "m [x\r ]\t2")).toEnd.failure = none := by decide +kernel
  obtain ⟨-, -, hwhole⟩ := toEnd_covers "" "m [x\r ]\t2" default
  exact ⟨hnone, (hwhole hnone).2.2⟩

/-- Tokens are counted by the lines of the text. Each of them was read from the line that it
names, which the lexer keeps. If there is no error, the lexer has read all the lines, each of
them has one newline, which is its last token, and the end marker is on the next line. -/
theorem toEnd_lines (name : String) {text : String} (tab : TabStop) {pieces : List (List Char)}
    (hpieces : Text.IsLines text.toList pieces) :
    let lexer := ofSource (.ofText name text tab)
    let scan := lexer.toEnd
    (pieces ≠ [] → ∀ n t, scan.tokens[n]? = some t → t.kind ≠ .endMarker →
      t.ReadFrom pieces (scan.tokens.take n) ∧
        ∀ m, n < m → (lexer.after m).texts[t.line - 1]? = pieces[t.line - 1]?) ∧
      (scan.failure = none → scan.final.texts = pieces ∧
        ∃ groups, FillLines (if pieces = [] then [[]] else pieces) groups ∧
          scan.tokens =
            groups.flatten ++ [.synthetic .endMarker (max 1 pieces.length + 1) 1]) := by
  intro lexer scan
  have hregular : lexer.Regular := regular_ofSource name text tab
  obtain ⟨wall, -, hends⟩ := lexer.exists_endsAt
  obtain rfl := hpieces.lines_eq
  constructor
  · intro hne n t hget hkind
    obtain ⟨hle, hitem⟩ := (hends.toEnd_eq.2.2 n t).1 hget
    have hread := readFrom_lines hends hne hle hitem hkind
    obtain ⟨more, htexts, -⟩ := texts_after name text tab (n + 1)
    refine ⟨htexts ▸ hread.append more, fun m hm => ?_⟩
    obtain ⟨part, rest, -, hline, -⟩ := hread
    have hlt := (List.getElem?_eq_some_iff.1 hline).1
    obtain ⟨later, hlater⟩ := (hregular.onward hm).texts_eq
    rw [hlater, htexts, List.getElem?_append_left hlt, List.getElem?_append_left hlt]
  · intro hnone
    rcases hends.toEnd_cases with ⟨e, -, hfailure, -⟩ | ⟨mark, hitem, hkind, -, -, htokens⟩
    · simp [scan, hfailure] at hnone
    · obtain ⟨hmark, hunread, htexts, groups, hbetween, hgroups⟩ := between_final hends hitem
      have hheld : scan.final.heldLines =
          if Text.lines text.toList = [] then [[]] else Text.lines text.toList := by
        rw [heldLines, ← htexts]
        refine if_congr ?_ rfl rfl
        rw [texts, List.map_eq_nil_iff, Array.toList_eq_nil_iff]
        exact and_iff_left hunread
      have hcount : scan.final.line = max 1 (Text.lines text.toList).length + 1 := by
        rw [hbetween.line_eq, hheld]
        cases Text.lines text.toList <;> simp
      refine ⟨htexts, groups, hheld ▸ hbetween.filled, ?_⟩
      change lexer.toEnd.tokens = _
      rw [htokens, hgroups, hmark, hcount]

/-- A line feed after a carriage return ends the line with it, and a second one is a line. -/
theorem toEnd_lines_blank_line :
    let pieces := [['a', '\r', '\n'], ['\n'], ['b']]
    let scan := (ofSource (.ofText "" "a\r\n\nb")).toEnd
    Text.IsLines "a\r\n\nb".toList pieces ∧ scan.failure = none ∧ scan.final.texts = pieces ∧
      ∃ groups, FillLines pieces groups ∧
        scan.tokens = groups.flatten ++ [.synthetic .endMarker 4 1] := by
  intro pieces scan
  have hpieces : Text.IsLines "a\r\n\nb".toList pieces := Text.isLines_iff.2 (by decide)
  have hnone : (ofSource (.ofText "" "a\r\n\nb")).toEnd.failure = none := by decide +kernel
  obtain ⟨-, hwhole⟩ := toEnd_lines "" default hpieces
  exact ⟨hpieces, hnone, hwhole hnone⟩

end

end Lexer

end OpticScript
