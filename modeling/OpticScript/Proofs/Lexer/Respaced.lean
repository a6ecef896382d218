import OpticScript.Proofs.Lexer.Columns
import OpticScript.Proofs.Lexer.Endings
import OpticScript.Proofs.Text.Respaced

/-!
# Tokens and blanks

Two lexers of texts that are the same but for the blanks between lexemes run in step
(`Lexer.Respaced`), whatever their tabs are. Their columns part, and so do those of the tokens,
which are the same in everything else (`Token.Respaced`).

What the columns still tell, as long as there is room for them in a word (`Lexer.Roomy`), is where
a number ends. A lexer has come past it to a later line, or stands right behind it, or farther on,
and both lexers do so alike (`Token.Passed`) : a blank is at least one column wide whatever it is,
and so is a lexeme. So a number that comes later begins where this one stops either in both texts
or in neither (`Token.Passed.adjoins_eq`, `Respaced.adjoins_item`).
-/

namespace OpticScript

/-- Tokens that are the same, and on the same line, but for the columns. -/
structure Token.Respaced (t t' : Token) : Prop where
  kind_eq : t'.kind = t.kind
  text_eq : t'.text = t.text
  literal_eq : t'.literal = t.literal
  line_eq : t'.line = t.line

/-- Diagnostics that say the same about the same text on the same line. -/
structure Diagnostic.Respaced (d d' : Diagnostic) : Prop where
  cause_eq : d'.cause = d.cause
  source_eq : d'.source = d.source
  line_eq : d'.line = d.line
  text_eq : d'.text = d.text

/-- Errors that say the same about the same text on the same line. -/
inductive ScriptError.Respaced : ScriptError → ScriptError → Prop
  | located {d d' : Diagnostic} (h : d.Respaced d') : Respaced (.located d) (.located d')

/-- Lines that are the same but for blanks. -/
inductive Piece.Respaced : Piece → Piece → Prop
  | line {text text' : List Char} (h : Text.Respaced text text') :
      Respaced (.line text) (.line text')

/-- Where the lexers stand from the tokens : on a later line, or both right behind them on the
line, or both farther on. -/
structure Token.Passed (t t' : Token) (lexer lexer' : Lexer) : Prop where
  wide : t.startColumn.toNat < t.stopColumn.toNat ∧ t'.startColumn.toNat < t'.stopColumn.toNat
  line_eq : t'.line = t.line
  read : t.line ≤ lexer.lines.size
  place : t.line < lexer.line ∨ t.line = lexer.line ∧
    (t.stopColumn.toNat = lexer.column.toNat + 1 ∧
        t'.stopColumn.toNat = lexer'.column.toNat + 1 ∨
      t.stopColumn.toNat < lexer.column.toNat + 1 ∧
        t'.stopColumn.toNat < lexer'.column.toNat + 1)

/-- The token is the next one on the line. -/
structure Token.IsNext (t : Token) (lexer : Lexer) : Prop where
  line_eq : t.line = lexer.line
  startColumn_eq : t.startColumn.toNat = lexer.column.toNat + 1
  wide : t.startColumn.toNat < t.stopColumn.toNat

theorem Token.adjoins_iff {first second : Token} : first.adjoins second = true ↔
    first.line = second.line ∧ first.stopColumn.toNat = second.startColumn.toNat := by
  simp [adjoins, UInt64.toNat_inj]

namespace Token.Passed

variable {t t' u u' : Token} {lexer lexer' next next' : Lexer}

/-- The lexers go on to a later line, or both go on on the line. -/
theorem onward (h : t.Passed t' lexer lexer') (hsize : lexer.lines.size ≤ next.lines.size)
    (hplace : lexer.line < next.line ∨ next.line = lexer.line ∧
      lexer.column.toNat < next.column.toNat ∧ lexer'.column.toNat < next'.column.toNat) :
    t.Passed t' next next' where
  wide := h.wide
  line_eq := h.line_eq
  read := h.read.trans hsize
  place := by
    have := h.place
    omega

/-- Tokens that come next begin where these stop, or neither of them does, and these do not
begin where those stop. -/
theorem adjoins_eq (h : t.Passed t' lexer lexer') (hline : lexer'.line = lexer.line)
    (hu : u.IsNext lexer) (hu' : u'.IsNext lexer') :
    t'.adjoins u' = t.adjoins u ∧ u'.adjoins t' = u.adjoins t := by
  obtain ⟨⟨hwide, hwide'⟩, hsame, -, hplace⟩ := h
  obtain ⟨huline, hustart, huwide⟩ := hu
  obtain ⟨huline', hustart', huwide'⟩ := hu'
  constructor <;> (rw [Bool.eq_iff_iff, adjoins_iff, adjoins_iff]; omega)

end Token.Passed

namespace Lexer

/-! ## Room for columns -/

/-- There is room in a word for the columns of the current line and of the lines to come. -/
structure Roomy (lexer : Lexer) : Prop where
  current : lexer.column.toNat + (lexer.tab.expand lexer.rest).length + 1 < UInt64.size
  unread : ∀ text, .line text ∈ lexer.unread → (lexer.tab.expand text).length + 1 < UInt64.size

section

variable {lexer : Lexer} {text rest : List Char}

/-- The columns of what comes next are counted right. -/
theorem Roomy.toNat_column (h : lexer.Roomy) (hrest : lexer.rest = text ++ rest) :
    (lexer.column + lexer.tab.span text).toNat =
      lexer.column.toNat + (lexer.tab.expand text).length := by
  have hroom := h.current
  rw [hrest, TabStop.expand_append, List.length_append] at hroom
  exact TabStop.toNat_add_span (by omega)

theorem Roomy.column_lt (h : lexer.Roomy) (hne : text ≠ []) (hrest : lexer.rest = text ++ rest) :
    lexer.column.toNat < (lexer.column + lexer.tab.span text).toNat := by
  rw [h.toNat_column hrest]
  exact Nat.lt_add_of_pos_right (TabStop.length_expand_pos _ hne)

/-- There is room behind what comes next. -/
theorem Roomy.behind (h : lexer.Roomy) (hrest : lexer.rest = text ++ rest) :
    { lexer with rest, column := lexer.column + lexer.tab.span text }.Roomy where
  current := by
    have hroom := h.current
    rw [hrest, TabStop.expand_append, List.length_append] at hroom
    dsimp only
    rw [h.toNat_column hrest]
    omega
  unread := h.unread

theorem Roomy.skipBlanks (h : lexer.Roomy) : lexer.skipBlanks.Roomy :=
  h.behind List.takeWhile_append_dropWhile.symm

theorem Roomy.advance (h : lexer.Roomy) (htext : text <+: lexer.rest) :
    (lexer.advance text).Roomy :=
  h.behind (List.prefix_iff_eq_append.1 htext).symm

theorem Roomy.enterLine (h : lexer.Roomy) {more : List Piece}
    (hunread : lexer.unread = .line text :: more) :
    ({ lexer with unread := more }.enterLine text).Roomy where
  current := by
    have hroom := h.unread text (hunread ▸ List.mem_cons_self)
    dsimp only [Lexer.enterLine]
    rwa [UInt64.toNat_zero, Nat.zero_add]
  unread line hline := h.unread line (hunread ▸ List.mem_cons_of_mem _ hline)

theorem Roomy.newLine (h : lexer.Roomy) :
    { lexer with line := lexer.line + 1, column := 0, unterminated := false }.Roomy where
  current := by
    have hroom := h.current
    dsimp only
    rw [UInt64.toNat_zero]
    omega
  unread := h.unread

/-- There is room for the columns of lines that can be shown. -/
theorem roomy_ofText (name : String) {text : String} {tab : TabStop} (hfits : tab.FitsText text) :
    (ofSource (.ofText name text tab)).Roomy where
  current := (by decide : 0 + 0 + 1 < UInt64.size)
  unread line hline := by
    obtain ⟨raw, hraw, hpiece⟩ := List.mem_map.1 hline
    obtain rfl := Piece.line.inj hpiece
    exact TabStop.length_expand_line (Text.isLine_of_mem_lines hraw) (hfits raw hraw)

end

/-! ## Lexers in step -/

/-- Lexers that read the same lines but for blanks and have got equally far. If there is `room` for
the columns, they have come past the tokens of `Past`. -/
structure Respaced (room : Prop) (Past : Token → Token → Prop) (lexer lexer' : Lexer) : Prop where
  source_eq : lexer'.source = lexer.source
  unread : List.Forall₂ Piece.Respaced lexer.unread lexer'.unread
  rest : Text.Respaced lexer.rest lexer'.rest
  line_eq : lexer'.line = lexer.line
  openers : List.Forall₂ Token.Respaced lexer.openers lexer'.openers
  unterminated_eq : lexer'.unterminated = lexer.unterminated
  roomy : room → lexer.Roomy ∧ lexer'.Roomy
  past : ∀ {t t'}, room → Past t t' → t.Passed t' lexer lexer'

/-- Replies that are the same but for blanks. If there is `room` for the columns, the lexers have
come past a number together, and it stands by those that came before as it does in the other
text. -/
inductive Reply.Respaced (room : Prop) (Past : Token → Token → Prop) :
    Reply Token → Reply Token → Prop
  | ok {t t' : Token} {lexer lexer' : Lexer} (ht : t.Respaced t')
      (h : lexer.Respaced room Past lexer')
      (hnumber : room → t.kind = .number → t.Passed t' lexer lexer' ∧ ∀ {first first'},
        Past first first' → first'.adjoins t' = first.adjoins t ∧
          t'.adjoins first' = t.adjoins first) :
      Respaced room Past (.ok t, lexer) (.ok t', lexer')
  | error {e e' : ScriptError} {lexer lexer' : Lexer} (he : e.Respaced e')
      (h : lexer.Respaced room Past lexer') :
      Respaced room Past (.error e, lexer) (.error e', lexer')

section

variable {room : Prop} {Past : Token → Token → Prop} {lexer lexer' : Lexer} {t t' : Token}

theorem Respaced.blame (h : lexer.Respaced room Past lexer') (cause : Cause) (ht : t.Respaced t') :
    ScriptError.Respaced (.located (lexer.blame cause t)) (.located (lexer'.blame cause t')) :=
  .located ⟨rfl, h.source_eq, ht.line_eq, ht.text_eq⟩

theorem Respaced.refuse (h : lexer.Respaced room Past lexer') (cause : Cause) (ht : t.Respaced t') :
    Reply.Respaced room Past (lexer.refuse cause t) (lexer'.refuse cause t') :=
  .error (h.blame cause ht) h

/-! ## Blanks and lines -/

theorem Respaced.skipBlanks (h : lexer.Respaced room Past lexer') :
    lexer.skipBlanks.Respaced room Past lexer'.skipBlanks where
  source_eq := h.source_eq
  unread := h.unread
  rest := h.rest.dropWhile
  line_eq := h.line_eq
  openers := h.openers
  unterminated_eq := h.unterminated_eq
  roomy hroom := (h.roomy hroom).imp Roomy.skipBlanks Roomy.skipBlanks
  past {t t'} hroom ht := by
    have hpassed := h.past hroom ht
    obtain ⟨hroomy, hroomy'⟩ := h.roomy hroom
    have hblanks := h.rest.takeWhile_eq_nil_iff
    by_cases hnil : lexer.rest.takeWhile isBlank = []
    · refine ⟨hpassed.wide, hpassed.line_eq, hpassed.read, ?_⟩
      simpa [Lexer.skipBlanks, hnil, hblanks.1 hnil] using hpassed.place
    · exact hpassed.onward (Nat.le_refl _) (.inr ⟨rfl,
        hroomy.column_lt hnil List.takeWhile_append_dropWhile.symm,
        hroomy'.column_lt (mt hblanks.2 hnil) List.takeWhile_append_dropWhile.symm⟩)

theorem Respaced.enterLine (h : lexer.Respaced room Past lexer')
    (hnext : lexer.line = lexer.lines.size + 1)
    {text text' : List Char} (hline : Text.Respaced text text') {more more' : List Piece}
    (hunread : lexer.unread = .line text :: more) (hunread' : lexer'.unread = .line text' :: more')
    (hmore : List.Forall₂ Piece.Respaced more more') :
    ({ lexer with unread := more }.enterLine text).Respaced room Past
      ({ lexer' with unread := more' }.enterLine text') where
  source_eq := h.source_eq
  unread := hmore
  rest := hline
  line_eq := h.line_eq
  openers := h.openers
  unterminated_eq := congrArg (!·) hline.any_getLast_eq
  roomy hroom := (h.roomy hroom).imp (·.enterLine hunread) (·.enterLine hunread')
  past {t t'} hroom ht := by
    obtain ⟨hwide, hsame, hread, -⟩ := h.past hroom ht
    refine ⟨hwide, hsame, ?_, .inl ?_⟩
    · exact hread.trans (by simp [Lexer.enterLine])
    · exact Nat.lt_of_le_of_lt hread (hnext ▸ Nat.lt_succ_self _)

/-! ## Tokens -/

theorem Respaced.withOpeners (h : lexer.Respaced room Past lexer') {openers openers' : List Token}
    (ho : List.Forall₂ Token.Respaced openers openers') :
    { lexer with openers }.Respaced room Past { lexer' with openers := openers' } where
  source_eq := h.source_eq
  unread := h.unread
  rest := h.rest
  line_eq := h.line_eq
  openers := ho
  unterminated_eq := h.unterminated_eq
  roomy hroom := (h.roomy hroom).imp (fun hroomy => ⟨hroomy.current, hroomy.unread⟩)
    fun hroomy => ⟨hroomy.current, hroomy.unread⟩
  past hroom ht :=
    have hpassed := h.past hroom ht
    ⟨hpassed.wide, hpassed.line_eq, hpassed.read, hpassed.place⟩

/-- A part of the line that both begin with is used up. -/
theorem Respaced.advance (h : lexer.Respaced room Past lexer') {text : List Char} (hne : text ≠ [])
    (htext : text <+: lexer.rest) (htext' : text <+: lexer'.rest)
    (hrest : Text.Respaced (lexer.rest.drop text.length) (lexer'.rest.drop text.length)) :
    (lexer.advance text).Respaced room Past (lexer'.advance text) where
  source_eq := h.source_eq
  unread := h.unread
  rest := hrest
  line_eq := h.line_eq
  openers := h.openers
  unterminated_eq := h.unterminated_eq
  roomy hroom := (h.roomy hroom).imp (·.advance htext) (·.advance htext')
  past hroom ht := (h.past hroom ht).onward (Nat.le_refl _) (.inr ⟨rfl,
    (h.roomy hroom).1.column_lt hne (List.prefix_iff_eq_append.1 htext).symm,
    (h.roomy hroom).2.column_lt hne (List.prefix_iff_eq_append.1 htext').symm⟩)

theorem Respaced.endLine (h : lexer.Respaced room Past lexer') :
    { lexer with line := lexer.line + 1 }.Respaced room Past
      { lexer' with line := lexer'.line + 1 } where
  source_eq := h.source_eq
  unread := h.unread
  rest := h.rest
  line_eq := congrArg (· + 1) h.line_eq
  openers := h.openers
  unterminated_eq := h.unterminated_eq
  roomy hroom := (h.roomy hroom).imp (fun hroomy => ⟨hroomy.current, hroomy.unread⟩)
    fun hroomy => ⟨hroomy.current, hroomy.unread⟩
  past hroom ht := (h.past hroom ht).onward (Nat.le_refl _) (.inl (Nat.lt_succ_self _))

theorem Respaced.close (h : lexer.Respaced room Past lexer') (ht : t.Respaced t') {text : List Char}
    (hadvance : (lexer.advance text).Respaced room Past (lexer'.advance text))
    (hkind : t.kind ≠ .number) (opener : TokenKind) :
    Reply.Respaced room Past (lexer.close t text opener) (lexer'.close t' text opener) := by
  have hopeners := h.openers
  unfold Lexer.close
  rw [ht.text_eq]
  rcases hlist : lexer.openers with _ | ⟨innermost, outer⟩ <;>
    rcases hlist' : lexer'.openers with _ | ⟨innermost', outer'⟩ <;>
    rw [hlist, hlist'] at hopeners <;> cases hopeners
  · exact h.refuse _ ht
  · rename_i hinnermost houter
    dsimp only
    rw [hinnermost.kind_eq]
    split
    · exact .ok ht (hadvance.withOpeners houter) fun _ hnumber => absurd hnumber hkind
    · exact (h.withOpeners houter).refuse _ ht

theorem Respaced.accept (h : lexer.Respaced room Past lexer') (ht : t.Respaced t')
    {text : List Char} (hadvance : (lexer.advance text).Respaced room Past (lexer'.advance text))
    (hnumber : room → t.Passed t' (lexer.advance text) (lexer'.advance text) ∧
      ∀ {first first'}, Past first first' → first'.adjoins t' = first.adjoins t ∧
        t'.adjoins first' = t.adjoins first) :
    Reply.Respaced room Past (lexer.accept t text) (lexer'.accept t' text) := by
  unfold Lexer.accept
  rw [ht.kind_eq]
  split
  · rename_i hkind
    exact .ok ht hadvance.endLine fun _ hk => by simp [hkind] at hk
  · rename_i hkind
    exact .ok ht (hadvance.withOpeners (.cons ht h.openers)) fun _ hk => by simp [hkind] at hk
  · rename_i hkind
    exact .ok ht (hadvance.withOpeners (.cons ht h.openers)) fun _ hk => by simp [hkind] at hk
  · rename_i hkind
    exact h.close ht hadvance (by simp [hkind]) _
  · rename_i hkind
    exact h.close ht hadvance (by simp [hkind]) _
  · exact .ok ht hadvance fun hroom _ => hnumber hroom

theorem Respaced.tokenHere (h : lexer.Respaced room Past lexer') (kind : TokenKind)
    (text : List Char)
    (literal : Literal) : ((lexer.tokenHere kind text).withLiteral literal).Respaced
      ((lexer'.tokenHere kind text).withLiteral literal) :=
  ⟨rfl, rfl, rfl, h.line_eq⟩

theorem Roomy.isNext_tokenHere (h : lexer.Roomy) (kind : TokenKind) {text : List Char}
    (hne : text ≠ []) (htext : text <+: lexer.rest) (literal : Literal) :
    ((lexer.tokenHere kind text).withLiteral literal).IsNext lexer ∧
      ((lexer.tokenHere kind text).withLiteral literal).stopColumn.toNat =
        (lexer.advance text).column.toNat + 1 := by
  have hlt := h.column_lt hne (List.prefix_iff_eq_append.1 htext).symm
  have hroom := (h.advance htext).current
  have hstart : (lexer.column + 1).toNat = lexer.column.toNat + 1 :=
    TabStop.toNat_succ (by have := h.current; omega)
  have hstop : (lexer.column + lexer.tab.span text + 1).toNat =
      (lexer.column + lexer.tab.span text).toNat + 1 :=
    TabStop.toNat_succ (by simp only [Lexer.advance] at hroom; omega)
  refine ⟨⟨rfl, hstart, ?_⟩, hstop⟩
  exact (hstart ▸ hstop ▸ Nat.add_lt_add_right hlt 1)

/-- The lexers stand right behind a token that they have used up. -/
theorem Respaced.passed_tokenHere (h : lexer.Respaced room Past lexer') (hroom : room)
    (hread : lexer.line ≤ lexer.lines.size) (kind : TokenKind) {text : List Char} (hne : text ≠ [])
    (htext : text <+: lexer.rest) (htext' : text <+: lexer'.rest) (literal : Literal) :
    ((lexer.tokenHere kind text).withLiteral literal).Passed
      ((lexer'.tokenHere kind text).withLiteral literal) (lexer.advance text)
      (lexer'.advance text) ∧
    ∀ {first first'}, Past first first' →
      first'.adjoins ((lexer'.tokenHere kind text).withLiteral literal) =
          first.adjoins ((lexer.tokenHere kind text).withLiteral literal) ∧
        ((lexer'.tokenHere kind text).withLiteral literal).adjoins first' =
          ((lexer.tokenHere kind text).withLiteral literal).adjoins first := by
  obtain ⟨hroomy, hroomy'⟩ := h.roomy hroom
  obtain ⟨hnext, hstop⟩ := hroomy.isNext_tokenHere kind hne htext literal
  obtain ⟨hnext', hstop'⟩ := hroomy'.isNext_tokenHere kind hne htext' literal
  exact ⟨⟨⟨hnext.wide, hnext'.wide⟩, h.line_eq, hread, .inr ⟨rfl, .inl ⟨hstop, hstop'⟩⟩⟩,
    fun hpast => (h.past hroom hpast).adjoins_eq h.line_eq hnext hnext'⟩

theorem Respaced.scan (h : lexer.Respaced room Past lexer') (hregular : lexer.Regular) {c c' : Char}
    {tail tail' : List Char} (hc : lexer.rest = c :: tail) (hc' : lexer'.rest = c' :: tail')
    (hblank : isBlank c = false) : Reply.Respaced room Past (lexer.scan c) (lexer'.scan c') := by
  rcases h.rest.scan hc hblank with ⟨hsame, hnone⟩ |
    ⟨lexeme, text, hscan, hscan', htake, htake', hdrop⟩
  · obtain ⟨rfl, rfl⟩ : c' = c ∧ tail' = tail := by simpa [hc, hc'] using hsame
    simp only [Lexer.scan, hsame, hnone, refuseCharacter]
    exact h.refuse _ (h.tokenHere _ _ _)
  · have hne : text ≠ [] := by
      rw [← htake, hc]
      simp [lexeme.size_pos.ne']
    simp only [Lexer.scan, hscan, hscan', htake, htake']
    rcases Lexeme.literal? lexeme.kind text with _ | literal
    · exact h.refuse _ (h.tokenHere _ _ _)
    · have hread : lexer.line ≤ lexer.lines.size := (hregular.line_eq (by simp [hc])).le
      have htext : text <+: lexer.rest := htake ▸ List.take_prefix _ _
      have htext' : text <+: lexer'.rest := htake' ▸ List.take_prefix _ _
      exact h.accept (h.tokenHere _ _ _) (h.advance hne htext htext' hdrop)
        fun hroom => h.passed_tokenHere hroom hread _ hne htext htext' literal

theorem Respaced.finish (h : lexer.Respaced room Past lexer') :
    Reply.Respaced room Past lexer.finish lexer'.finish := by
  have hlast := rel_getElem h.openers (lexer.openers.length - 1)
  unfold Lexer.finish
  rw [List.getLast?_eq_getElem?, List.getLast?_eq_getElem?, ← h.openers.length_eq]
  rcases hopener : lexer.openers[lexer.openers.length - 1]? with _ | opener <;>
    rcases hopener' : lexer'.openers[lexer.openers.length - 1]? with _ | opener' <;>
    rw [hopener, hopener'] at hlast <;> cases hlast
  · dsimp only
    rw [h.unterminated_eq]
    split
    · refine .ok ⟨rfl, rfl, rfl, h.line_eq⟩ { h with
        line_eq := congrArg (· + 1) h.line_eq
        unterminated_eq := rfl
        roomy := fun hroom => (h.roomy hroom).imp Roomy.newLine Roomy.newLine
        past := fun hroom ht =>
          (h.past hroom ht).onward (Nat.le_refl _) (.inl (Nat.lt_succ_self _)) } ?_
      simp [Token.synthetic]
    · exact .ok ⟨rfl, rfl, rfl, h.line_eq⟩ h (by simp [Token.synthetic])
  · rename_i hsame
    dsimp only
    rw [hsame.text_eq]
    exact h.refuse _ hsame

/-! ## Requests -/

theorem respaced_inStep (room : Prop) (Past : Token → Token → Prop) :
    InStep (fun lexer lexer' => lexer.Respaced room Past lexer' ∧ lexer.Regular)
      (Reply.Respaced room Past) where
  skipBlanks h := ⟨h.1.skipBlanks, h.2.skipBlanks⟩
  rest_nil h := h.1.rest.eq_nil_iff
  unread_nil h hunread := List.forall₂_nil_left_iff.1 (hunread ▸ h.1.unread)
  enterLine {lexer lexer' piece more} h hrest hunread := by
    obtain ⟨piece', more', hpiece, hmore, hunread'⟩ :=
      List.forall₂_cons_left_iff.1 (hunread ▸ h.1.unread)
    cases hpiece with
    | line hline =>
      have hnext := h.2.next_line hrest (by simp [hunread])
      exact ⟨_, _, _, rfl, hunread', h.1.enterLine hnext hline hunread hunread' hmore,
        h.2.enterLine hrest hunread⟩
  scan h hc hc' hblank := h.1.scan h.2 hc hc' hblank
  finish h := h.1.finish

theorem Respaced.nextToken (h : lexer.Respaced room Past lexer') (hregular : lexer.Regular) :
    Reply.Respaced room Past lexer.nextToken lexer'.nextToken :=
  (respaced_inStep room Past).nextTokenFrom lexer.unread rfl ⟨h, hregular⟩

theorem Reply.Respaced.next {reply reply' : Reply Token} (h : reply.Respaced room Past reply') :
    reply.2.Respaced room Past reply'.2 := by
  cases h <;> assumption

/-! ## Runs -/

theorem Respaced.after (h : lexer.Respaced room Past lexer') (hregular : lexer.Regular) :
    ∀ n, (lexer.after n).Respaced room Past (lexer'.after n)
  | 0 => h
  | n + 1 => ((h.after hregular n).nextToken (hregular.after n)).next

/-- The tokens are the same but for the columns, or there is an error in both texts. -/
theorem Respaced.item (h : lexer.Respaced room Past lexer') (hregular : lexer.Regular) (n : Nat) :
    (∃ t t' : Token, lexer.item n = .ok (some t) ∧ lexer'.item n = .ok (some t') ∧ t.Respaced t') ∨
      ∃ e e' : ScriptError, lexer.item n = .error e ∧ lexer'.item n = .error e' ∧
        e.Respaced e' := by
  have hreply := (h.after hregular n).nextToken (hregular.after n)
  rw [Lexer.item, Lexer.item]
  rcases hnext : (lexer.after n).nextToken with ⟨answer, next⟩
  rcases hnext' : (lexer'.after n).nextToken with ⟨answer', next'⟩
  rw [hnext, hnext'] at hreply
  cases hreply with
  | ok ht => exact .inl ⟨_, _, rfl, rfl, ht⟩
  | error he => exact .inr ⟨_, _, rfl, rfl, he⟩

/-- A number is passed together, and it stands by the tokens of `Past` as in the other text. -/
theorem Respaced.item_number (h : lexer.Respaced room Past lexer') (hroom : room)
    (hregular : lexer.Regular) {n : Nat}
    (ht : lexer.item n = .ok (some t)) (ht' : lexer'.item n = .ok (some t'))
    (hkind : t.kind = .number) :
    t.Passed t' (lexer.after (n + 1)) (lexer'.after (n + 1)) ∧ ∀ {first first'}, Past first first' →
      first'.adjoins t' = first.adjoins t ∧ t'.adjoins first' = t.adjoins first := by
  have hreply := (h.after hregular n).nextToken (hregular.after n)
  rw [item_eq_ok_iff.1 ht, item_eq_ok_iff.1 ht'] at hreply
  cases hreply with
  | ok _ _ hnumber => exact hnumber hroom hkind

/-- Of two numbers, the later one begins where the earlier one stops either in both texts or in
neither, and the earlier one does not begin where the later one stops. -/
theorem Respaced.adjoins_item (h : lexer.Respaced room Past lexer') (hroom : room)
    (hregular : lexer.Regular) {m n : Nat}
    (hlt : m < n) {u u' : Token} (ht : lexer.item m = .ok (some t))
    (ht' : lexer'.item m = .ok (some t'))
    (hkind : t.kind = .number) (hu : lexer.item n = .ok (some u))
    (hu' : lexer'.item n = .ok (some u'))
    (hkind' : u.kind = .number) : t'.adjoins u' = t.adjoins u ∧ u'.adjoins t' = u.adjoins t := by
  have hpassed := (h.item_number hroom hregular ht ht' hkind).1
  have hmet : (lexer.after (m + 1)).Respaced room (fun a a' => a = t ∧ a' = t')
      (lexer'.after (m + 1)) :=
    { h.after hregular (m + 1) with
      past := by
        rintro _ _ - ⟨rfl, rfl⟩
        exact hpassed }
  obtain ⟨k, rfl⟩ := Nat.exists_eq_add_of_le hlt
  rw [item_add] at hu hu'
  exact (hmet.item_number hroom (hregular.after (m + 1)) hu hu' hkind').2 ⟨rfl, rfl⟩

end

/-- Lexers of texts that are the same but for blanks begin in step. There is room for the columns
if all lines can be shown. -/
theorem respaced_ofText (name : String) {text text' : String} (tab tab' : TabStop)
    (hlines : List.Forall₂ Text.Respaced (Text.lines text.toList) (Text.lines text'.toList)) :
    (ofSource (.ofText name text tab)).Respaced (tab.FitsText text ∧ tab'.FitsText text')
      (fun _ _ => False) (ofSource (.ofText name text' tab')) where
  source_eq := rfl
  unread := List.forall₂_map_left_iff.2 (List.forall₂_map_right_iff.2 (hlines.imp fun _ _ => .line))
  rest := .refl []
  line_eq := rfl
  openers := .nil
  unterminated_eq := rfl
  roomy hfits := hfits.imp (roomy_ofText name) (roomy_ofText name)
  past _ hpast := hpast.elim

end Lexer

end OpticScript
