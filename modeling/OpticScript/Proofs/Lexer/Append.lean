import OpticScript.Proofs.Lexer.Regular

/-!
# The tokens of a text and of what follows it

The lexer of a text that goes on after a line feed gives what the lexer of its first part
gives until that one is used up (`Regular.item_within`, `Regular.after_within`), and so
does one that goes on with anything else (`Regular.item_left`, `Regular.after_left`). After
that it gives what the lexer of the second part gives, further down by the number of lines
before (`Regular.below_exhausted`) : of what has been read before only the open brackets
show, and there must be none.
-/

namespace OpticScript

/-! ## Further down -/

/-- The token so many lines further down. -/
def Token.lower (k : Nat) (t : Token) : Token := { t with line := t.line + k }

/-- The diagnostic so many lines further down. -/
def Diagnostic.lower (k : Nat) (d : Diagnostic) : Diagnostic := { d with line := d.line + k }

/-- The error so many lines further down. -/
def ScriptError.lower (k : Nat) : ScriptError → ScriptError
  | located d => located (d.lower k)
  | unreadable source line => unreadable source (line + k)
  | missingFile path => missingFile path

section

variable {k : Nat} {t : Token}

@[simp] theorem Token.lower_kind : (t.lower k).kind = t.kind := rfl

@[simp] theorem Token.lower_text : (t.lower k).text = t.text := rfl

@[simp] theorem Token.lower_line : (t.lower k).line = t.line + k := rfl

@[simp] theorem Token.lower_zero : t.lower 0 = t := rfl

end

namespace Lexer

/-- The lexer of a text that stands below the given lines and above the given pieces. -/
def within (lexer : Lexer) (earlier : Array String) (more : List Piece) : Lexer :=
  { lexer with
    unread := lexer.unread ++ more
    lines := earlier ++ lexer.lines
    line := lexer.line + earlier.size
    openers := lexer.openers.map (Token.lower earlier.size) }

/-- A token or an error so many lines further down. -/
def lowered (k : Nat) : Except ScriptError Token → Except ScriptError Token
  | .ok t => .ok (t.lower k)
  | .error e => .error (e.lower k)

/-- The reply of a lexer of a text that stands below the given lines and above the given
pieces. -/
def Reply.within (reply : Reply Token) (earlier : Array String) (more : List Piece) : Reply Token :=
  (lowered earlier.size reply.1, reply.2.within earlier more)

section

variable {lexer : Lexer} {earlier : Array String} {more : List Piece} {token : Token}

theorem within_nil : lexer.within #[] [] = lexer := by
  have hlower : lexer.openers.map (Token.lower 0) = lexer.openers := List.map_id _
  simp [within, hlower]

theorem sourceLine_within {line : Nat} (hline : 1 ≤ line) :
    (lexer.within earlier more).sourceLine? (line + earlier.size) = lexer.sourceLine? line := by
  have hne : line ≠ 0 := by omega
  have hne' : line + earlier.size ≠ 0 := by omega
  have hindex : line + earlier.size - 1 = earlier.size + (line - 1) := by omega
  simp only [sourceLine?, hne, hne', if_false, hindex, within, Array.getElem?_append_right
    (Nat.le_add_right earlier.size _), Nat.add_sub_cancel_left]

theorem blame_within (cause : Cause) (hline : 1 ≤ token.line) :
    (lexer.within earlier more).blame cause (token.lower earlier.size) =
      (lexer.blame cause token).lower earlier.size := by
  simp only [blame, Diagnostic.lower, Token.lower_line, sourceLine_within hline]
  rfl

theorem within_blame : (lexer.within #[] more).blame = lexer.blame := by
  funext cause token
  simp [blame, sourceLine?, within]

theorem refuse_within (lexer : Lexer) (cause : Cause) (token : Token) (hline : 1 ≤ token.line) :
    (lexer.within earlier more).refuse cause (token.lower earlier.size) =
      Reply.within (lexer.refuse cause token) earlier more := by
  simp only [refuse, Reply.within, lowered, ScriptError.lower, blame_within cause hline]

theorem close_within (hline : 1 ≤ token.line) (text : List Char) (opener : TokenKind) :
    (lexer.within earlier more).close (token.lower earlier.size) text opener =
      Reply.within (lexer.close token text opener) earlier more := by
  rcases hopeners : lexer.openers with _ | ⟨innermost, outer⟩
  · have hopeners' : (lexer.within earlier more).openers = [] := by simp [within, hopeners]
    simp only [close, hopeners, hopeners', Token.lower_text, refuse_within _ _ _ hline]
  · have hopeners' : (lexer.within earlier more).openers =
        innermost.lower earlier.size :: outer.map (Token.lower earlier.size) := by
      simp [within, hopeners]
    simp only [close, hopeners, hopeners']
    by_cases hkind : innermost.kind = opener
    · have hkind' : (innermost.lower earlier.size).kind = opener := hkind
      rw [if_pos hkind, if_pos hkind']
      rfl
    · have hkind' : (innermost.lower earlier.size).kind ≠ opener := hkind
      rw [if_neg hkind, if_neg hkind']
      exact refuse_within { lexer with openers := outer } _ _ hline

theorem accept_within (token : Token) (hline : 1 ≤ token.line) (text : List Char) :
    (lexer.within earlier more).accept (token.lower earlier.size) text =
      Reply.within (lexer.accept token text) earlier more := by
  have hbreak : lexer.line + earlier.size + 1 = lexer.line + 1 + earlier.size := by omega
  cases hkind : token.kind <;>
    simp only [accept, Token.lower_kind, hkind, close_within hline] <;>
    simp only [Reply.within, lowered, within, advance, hbreak, List.map_cons]

theorem scan_within (hline : 1 ≤ lexer.line) (c : Char) :
    (lexer.within earlier more).scan c = Reply.within (lexer.scan c) earlier more := by
  -- both lexers scan the same rest
  have hrest : (lexer.within earlier more).rest = lexer.rest := rfl
  rcases hscan : Lexeme.scan? lexer.rest with _ | lexeme
  · rw [scan_of_none hscan, scan_of_none (hrest ▸ hscan)]
    exact refuse_within lexer _ (lexer.tokenHere .error _) hline
  rcases hliteral : Lexeme.literal? lexeme.kind (lexer.rest.take lexeme.size) with _ | literal
  · rw [scan_of_no_literal hscan hliteral, scan_of_no_literal (hrest ▸ hscan) (hrest ▸ hliteral)]
    exact refuse_within lexer _ (lexer.tokenHere lexeme.kind _) hline
  · rw [scan_of_literal hscan hliteral, scan_of_literal (hrest ▸ hscan) (hrest ▸ hliteral)]
    exact accept_within ((lexer.tokenHere lexeme.kind _).withLiteral literal) hline _

theorem finish_within (hopeners : ∀ opener ∈ lexer.openers, 1 ≤ opener.line) :
    (lexer.within earlier more).finish = Reply.within lexer.finish earlier more := by
  have hlast : (lexer.within earlier more).openers.getLast? =
      lexer.openers.getLast?.map (Token.lower earlier.size) := by simp [within]
  unfold finish
  rw [hlast]
  rcases hopener : lexer.openers.getLast? with _ | opener
  · dsimp only [Option.map_none]
    have hbreak : lexer.line + earlier.size + 1 = lexer.line + 1 + earlier.size := by omega
    change (if lexer.unterminated then _ else _) = _
    split
    · simp [Reply.within, lowered, within, Token.synthetic, Token.lower, hbreak]
    · rfl
  · exact refuse_within lexer _ opener (hopeners opener (List.mem_of_getLast? hopener))

/-! ## The next token -/

theorem Regular.of_within (h : (lexer.within #[] more).Regular) : lexer.Regular where
  lines_unread piece hp := h.lines_unread piece (List.mem_append_left more hp)
  ended_unread text ht := by
    refine h.ended_unread text ?_
    rcases List.eq_nil_or_concat more with rfl | ⟨init, last, rfl⟩
    · simpa [within] using ht
    · change _ ∈ (lexer.unread ++ init.concat last).dropLast
      rw [List.concat_eq_append, ← List.append_assoc, List.dropLast_concat]
      exact List.mem_append_left init ((List.dropLast_sublist _).subset ht)
  rest := h.rest
  ended_rest hunread hrest := h.ended_rest (by simp [within, hunread]) hrest
  line_pos := h.line_pos
  line_eq hrest := by simpa [within] using h.line_eq hrest
  next_line hrest hunread := by simpa [within] using h.next_line hrest (by simp [within, hunread])
  openers opener ho := by
    simpa [within] using h.openers opener (by simpa [within] using ho)
  terminated hunread hu := by
    simpa [within] using h.terminated (by simp [within, hunread]) hu

theorem skipBlanks_rest_ne_nil (h : Text.EndsLine lexer.rest) : lexer.skipBlanks.rest ≠ [] := by
  have hlt := h.bodyLength_lt
  have hle := blanks_le_bodyLength lexer.rest
  rw [rest_skipBlanks, Ne, List.drop_eq_nil_iff]
  omega

theorem enterLine_within (lexer : Lexer) (text : List Char) (pieces : List Piece) :
    { lexer.within earlier more with unread := pieces ++ more }.enterLine text =
      ({ lexer with unread := pieces }.enterLine text).within earlier more := by
  simp [enterLine, within]

/-- As long as there are lines left, the lines before and the pieces after them make no
difference, whatever the pieces are. -/
theorem Regular.nextTokenFrom_within (earlier : Array String) :
    ∀ (pieces : List Piece) {lexer : Lexer}, lexer.unread = pieces →
      (lexer.within #[] more).Regular → (more ≠ [] → pieces = [] → lexer.rest ≠ []) →
        ∃ start : Lexer, (start.within #[] more).Regular ∧ lexer.Onward start ∧
          ((∃ c tail, start.rest = c :: tail ∧ nextTokenFrom pieces lexer = start.scan c ∧
            ∀ after, nextTokenFrom (pieces ++ after) (lexer.within earlier after) =
              (start.within earlier after).scan c) ∨
          more = [] ∧ nextTokenFrom pieces lexer = start.finish ∧
            nextTokenFrom (pieces ++ more) (lexer.within earlier more) =
              (start.within earlier more).finish)
  | pieces, lexer, hunread, h, hleft => by
    have hrest' : ∀ after, (lexer.within earlier after).skipBlanks.rest = lexer.skipBlanks.rest :=
      fun _ => rfl
    rcases hrest : lexer.skipBlanks.rest with _ | ⟨c, tail⟩
    · rcases pieces with _ | ⟨piece, pieces⟩
      · have hmore : more = [] := by
          by_contra hmore
          exact skipBlanks_rest_ne_nil
            (h.ended_rest (by simp [within, hmore]) (hleft hmore rfl)) hrest
        subst hmore
        exact ⟨lexer.skipBlanks, h.skipBlanks, .of_eq rfl rfl rfl rfl,
          .inr ⟨rfl, nextTokenFrom_nil hrest, nextTokenFrom_nil ((hrest' []).trans hrest)⟩⟩
      · obtain ⟨text, rfl, hne, -⟩ := h.lines_unread piece (by simp [within, hunread])
        have hread : lexer.Onward ({ lexer.skipBlanks with unread := pieces }.enterLine text) :=
          ⟨rfl, rfl, [text], hunread, by simp [Lexer.enterLine, Lexer.skipBlanks]⟩
        have henter :
            (({ lexer.skipBlanks with unread := pieces }.enterLine text).within #[]
              more).Regular := by
          rw [← enterLine_within]
          exact h.skipBlanks.enterLine hrest (by simp [within, Lexer.skipBlanks, hunread])
        -- the line is entered whatever comes after it
        have hline :
            ∀ after, nextTokenFrom (.line text :: pieces ++ after) (lexer.within earlier after) =
            nextTokenFrom (pieces ++ after)
              (({ lexer.skipBlanks with unread := pieces }.enterLine text).within earlier
                  after) := by
          intro after
          rw [List.cons_append, nextTokenFrom_line text _ ((hrest' after).trans hrest),
            ← enterLine_within lexer.skipBlanks]
          rfl
        obtain ⟨start, hstart, honward, hreply⟩ :=
          Regular.nextTokenFrom_within earlier pieces rfl henter fun _ _ => hne
        refine ⟨start, hstart, hread.trans honward, ?_⟩
        rw [nextTokenFrom_line text pieces hrest]
        simpa only [hline] using hreply
    · exact ⟨lexer.skipBlanks, h.skipBlanks, .of_eq rfl rfl rfl rfl,
        .inl ⟨c, tail, hrest, nextTokenFrom_of_cons _ hrest,
          fun after => nextTokenFrom_of_cons _ ((hrest' after).trans hrest)⟩⟩

theorem Regular.nextToken_within (h : (lexer.within #[] more).Regular)
    (hleft : more ≠ [] → ¬lexer.Exhausted) (earlier : Array String) :
    (lexer.within earlier more).nextToken = Reply.within lexer.nextToken earlier more := by
  obtain ⟨start, hstart, -, ⟨c, tail, -, hreply, hreply'⟩ | ⟨-, hreply, hreply'⟩⟩ :=
    Regular.nextTokenFrom_within earlier lexer.unread rfl h
      fun hmore hunread hrest => hleft hmore ⟨hrest, hunread⟩
  · rw [nextToken, nextToken, hreply]
    exact (hreply' more).trans (scan_within hstart.of_within.line_pos c)
  · rw [nextToken, nextToken, hreply]
    exact hreply'.trans (finish_within fun opener ho => (hstart.of_within.openers opener ho).1)

/-- With lines left the next token is scanned from one of them, whatever comes after the
lines. -/
theorem Regular.nextToken_left (h : (lexer.within #[] more).Regular) (hmore : more ≠ [])
    (hleft : ¬lexer.Exhausted) :
    (∃ start : Lexer, ∃ c, lexer.nextToken = start.scan c) ∧
      ∀ after, (lexer.within #[] after).nextToken = Reply.within lexer.nextToken #[] after := by
  obtain ⟨start, hstart, -, ⟨c, tail, -, hreply, hreply'⟩ | ⟨hnil, -⟩⟩ :=
    Regular.nextTokenFrom_within #[] lexer.unread rfl h
      fun _ hunread hrest => hleft ⟨hrest, hunread⟩
  · refine ⟨⟨start, c, hreply⟩, fun after => ?_⟩
    rw [nextToken, nextToken, hreply]
    exact (hreply' after).trans (scan_within hstart.of_within.line_pos c)
  · exact absurd hnil hmore

/-- A token with lines left after it stands on a line that has been read; it is no end
marker, and a newline if it uses the line up. -/
theorem Regular.nextToken_ok (h : (lexer.within #[] more).Regular) (hmore : more ≠ [])
    (hleft : ¬lexer.Exhausted) {t : Token} {after : Lexer}
    (hnext : lexer.nextToken = (.ok t, after)) :
    t.line ≤ after.lines.size ∧ t.kind ≠ .endMarker ∧ (after.rest = [] → t.kind = .newline) := by
  obtain ⟨start, hstart, -, ⟨c, tail, hrest, hreply, -⟩ | ⟨hnil, -⟩⟩ :=
    Regular.nextTokenFrom_within #[] lexer.unread rfl h
      fun _ hunread hrest => hleft ⟨hrest, hunread⟩
  · have hne : start.rest ≠ [] := by simp [hrest]
    have hscan : start.scan c = (.ok t, after) := hreply.symm.trans hnext
    obtain ⟨hline, hkind, hnewline⟩ := hstart.of_within.scan_ok hrest hscan
    have honward := (hstart.of_within.gives_scan hrest).onward
    rw [hscan] at honward
    refine ⟨?_, hkind, hnewline (hstart.ended_rest (by simp [within, hmore]) hne)⟩
    rw [hline, hstart.of_within.line_eq hne]
    exact honward.size_le
  · exact absurd hnil hmore

/-! ## Until the first part is used up -/

theorem lowered_zero (answer : Except ScriptError Token) : lowered 0 answer = answer := by
  rcases answer with e | t
  · cases e <;> rfl
  · rfl

theorem Regular.after_within (h : (lexer.within #[] more).Regular) {n : Nat}
    (hleft : ∀ i < n, ¬(lexer.after i).Exhausted) :
    ((lexer.after n).within #[] more).Regular ∧
      (lexer.within #[] more).after n = (lexer.after n).within #[] more := by
  induction n with
  | zero => exact ⟨h, rfl⟩
  | succ n ih =>
    obtain ⟨hregular, hafter⟩ := ih fun i hi => hleft i (Nat.lt_succ_of_lt hi)
    have hnext := hregular.nextToken_within (fun _ => hleft n (Nat.lt_succ_self n)) #[]
    have hsucc : (lexer.within #[] more).after (n + 1) = (lexer.after (n + 1)).within #[] more := by
      rw [Lexer.after, hafter, hnext]
      rfl
    exact ⟨hsucc ▸ h.after (n + 1), hsucc⟩

theorem Regular.item_within (h : (lexer.within #[] more).Regular) {n : Nat}
    (hleft : ∀ i ≤ n, ¬(lexer.after i).Exhausted) :
    (lexer.within #[] more).item n = lexer.item n := by
  obtain ⟨hregular, hafter⟩ := h.after_within fun i hi => hleft i (Nat.le_of_lt hi)
  rw [item, hafter, hregular.nextToken_within (fun _ => hleft n (Nat.le_refl n)) #[], item]
  exact congrArg _ (lowered_zero _)

/-- Until the lines are used up, it makes no difference whether lines follow them or other
pieces. -/
theorem Regular.after_left (h : (lexer.within #[] more).Regular) (hmore : more ≠ []) {n : Nat}
    (hleft : ∀ i < n, ¬(lexer.after i).Exhausted) (pieces : List Piece) :
    (lexer.within #[] pieces).after n = (lexer.after n).within #[] pieces := by
  induction n with
  | zero => rfl
  | succ n ih =>
    have hregular := (h.after_within fun i hi => hleft i (Nat.lt_succ_of_lt hi)).1
    have hnext := (hregular.nextToken_left hmore (hleft n (Nat.lt_succ_self n))).2 pieces
    rw [Lexer.after, ih fun i hi => hleft i (Nat.lt_succ_of_lt hi), hnext]
    rfl

theorem Regular.item_left (h : (lexer.within #[] more).Regular) (hmore : more ≠ []) {n : Nat}
    (hleft : ∀ i ≤ n, ¬(lexer.after i).Exhausted) (pieces : List Piece) :
    (lexer.within #[] pieces).item n = lexer.item n := by
  have hregular := (h.after_within fun i hi => hleft i (Nat.le_of_lt hi)).1
  have hnext := (hregular.nextToken_left hmore (hleft n (Nat.le_refl n))).2 pieces
  rw [item, h.after_left hmore (fun i hi => hleft i (Nat.le_of_lt hi)) pieces, hnext, item]
  exact congrArg _ (lowered_zero _)

/-- When every line is used up, what is left is a bracket that is not closed or the end
marker. -/
theorem Regular.nextToken_exhausted (h : (lexer.within #[] more).Regular) (hmore : more ≠ [])
    (hex : lexer.Exhausted) (hlines : lexer.lines ≠ #[]) : lexer.nextToken.2 = lexer ∧
      (lexer.openers = [] → ∃ t, t.kind = .endMarker ∧ lexer.nextToken.1 = .ok t) ∧
      (lexer.openers ≠ [] → ∃ opener,
        lexer.nextToken.1 = .error (.located (lexer.blame (.unclosed opener.text) opener))) := by
  obtain ⟨hrest, hunread⟩ := hex
  have hskip : lexer.skipBlanks = lexer := skipBlanks_of_nil hrest
  have hterminated : lexer.unterminated = false := by
    by_contra hu
    have := h.terminated (by simp [within, hmore]) (by simpa [within] using hu)
    exact hlines (by simpa [within] using this)
  have hfinish : lexer.nextToken = lexer.finish := by
    rw [nextToken, hunread, nextTokenFrom_nil (by rw [hskip, hrest]), hskip]
  rcases hopener : lexer.openers.getLast? with _ | opener
  · have hnil : lexer.openers = [] := by simpa using hopener
    simp [hfinish, finish, hnil, hterminated, Token.synthetic]
  · have hne : lexer.openers ≠ [] := by
      rintro hnil
      simp [hnil] at hopener
    rw [hfinish, finish, hopener]
    exact ⟨rfl, fun hnil => absurd hnil hne, fun _ => ⟨opener, rfl⟩⟩

theorem Regular.lines_ne_nil (h : lexer.Regular) (hleft : ¬lexer.Exhausted) {n : Nat}
    (hex : (lexer.after n).Exhausted) : (lexer.after n).lines ≠ #[] := by
  have hcount := (h.onward (Nat.zero_le n)).count
  have hpos : 0 < lexer.lines.size + lexer.unread.length := by
    rcases hunread : lexer.unread with _ | ⟨piece, more⟩
    · have hrest : lexer.rest ≠ [] := fun hrest => hleft ⟨hrest, hunread⟩
      have := h.line_eq hrest
      have := h.line_pos
      omega
    · exact Nat.lt_of_lt_of_le (Nat.succ_pos _) (Nat.le_add_left _ _)
  rintro hnil
  rw [hex.2, hnil] at hcount
  simp only [List.size_toArray, List.length_nil] at hcount
  exact absurd hcount (Nat.ne_of_lt hpos)

variable {wall : Nat}

/-- Before the end of a text there are lines left. -/
theorem EndsAt.left (hends : lexer.EndsAt wall) (h : (lexer.within #[] more).Regular)
    (hmore : more ≠ []) (hleft : ¬lexer.Exhausted) : ∀ i < wall, ¬(lexer.after i).Exhausted := by
  intro i
  induction i using Nat.strong_induction_on with
  | _ i ih =>
    intro hi hex
    have hregular := (h.after_within fun j hj => ih j hj (hj.trans hi)).1
    have hlines := h.of_within.lines_ne_nil hleft hex
    obtain ⟨-, hclosed, hopen⟩ := hregular.nextToken_exhausted hmore hex hlines
    obtain ⟨t, ht, hkind⟩ := hends.not_wall i hi
    have hnext : (lexer.after i).nextToken.1 = .ok t := by rw [item_eq_ok_iff.1 ht]
    by_cases hopeners : (lexer.after i).openers = []
    · obtain ⟨mark, hmark, hanswer⟩ := hclosed hopeners
      obtain rfl : mark = t := by simpa [hanswer] using hnext
      exact hkind hmark
    · obtain ⟨opener, hanswer⟩ := hopen hopeners
      simp [hanswer] at hnext

/-- A line that is used up ended in a newline. -/
theorem EndsAt.newline (hends : lexer.EndsAt wall) (h : (lexer.within #[] more).Regular)
    (hmore : more ≠ []) (hleft : ¬lexer.Exhausted) (hex : (lexer.after wall).Exhausted) :
    ∃ n t, wall = n + 1 ∧ lexer.item n = .ok (some t) ∧ t.kind = .newline := by
  obtain ⟨n, rfl⟩ : ∃ n, wall = n + 1 := by
    refine Nat.exists_eq_succ_of_ne_zero ?_
    rintro rfl
    exact hleft hex
  have hlefts := hends.left h hmore hleft
  obtain ⟨t, ht, -⟩ := hends.not_wall n (Nat.lt_succ_self n)
  have hregular := (h.after_within fun j hj => hlefts j (Nat.lt_succ_of_lt hj)).1
  exact ⟨n, t, rfl, ht, (hregular.nextToken_ok hmore (hlefts n (Nat.lt_succ_self n))
    (item_eq_ok_iff.1 ht)).2.2 hex.1⟩

/-- A text that is not used up at its end ends in an error. -/
theorem EndsAt.broken (hends : lexer.EndsAt wall) (h : (lexer.within #[] more).Regular)
    (hmore : more ≠ []) (hleft : ¬lexer.Exhausted) (hex : ¬(lexer.after wall).Exhausted) :
    (∃ e, lexer.item wall = .error e) ∧ (lexer.within #[] more).item wall = lexer.item wall := by
  have hlefts := hends.left h hmore hleft
  refine ⟨?_, h.item_within fun i hi => ?_⟩
  · rcases hitem : lexer.item wall with e | _ | t
    · exact ⟨e, rfl⟩
    · exact absurd hitem (item_ne_none wall)
    · have hregular := (h.after_within hlefts).1
      exact absurd (hends.wall t hitem)
        (hregular.nextToken_ok hmore hex (item_eq_ok_iff.1 hitem)).2.1
  · rcases Nat.lt_or_eq_of_le hi with hlt | rfl
    · exact hlefts i hlt
    · exact hex

/-! ## After the first part -/

/-- The second lexer gives what the first one gives, so many lines further down. -/
structure Below (k : Nat) (lexer lexer' : Lexer) : Prop where
  token : ∀ n t, lexer.item n = .ok (some t) → lexer'.item n = .ok (some (t.lower k))
  error : ∀ n e, lexer.item n = .error e → lexer'.item n = .error (e.lower k)
  blame : ∀ n cause t, 1 ≤ t.line →
    (lexer'.after n).blame cause (t.lower k) = ((lexer.after n).blame cause t).lower k

theorem Regular.after_below (h : lexer.Regular) (earlier : Array String) :
    ∀ n, (lexer.within earlier []).after n = (lexer.after n).within earlier []
  | 0 => rfl
  | n + 1 => by
    have hregular : ((lexer.after n).within #[] []).Regular := by
      rw [within_nil]
      exact h.after n
    rw [Lexer.after, h.after_below earlier n,
      hregular.nextToken_within (fun hne => absurd rfl hne) earlier]
    rfl

theorem Regular.below (h : lexer.Regular) (earlier : Array String) :
    Below earlier.size lexer (lexer.within earlier []) := by
  have hitem : ∀ n, (lexer.within earlier []).item n =
      (lowered earlier.size (lexer.after n).nextToken.1).map some := by
    intro n
    have hregular : ((lexer.after n).within #[] []).Regular := by
      rw [within_nil]
      exact h.after n
    rw [item, h.after_below earlier n,
      hregular.nextToken_within (fun hne => absurd rfl hne) earlier]
    rfl
  refine ⟨fun n t ht => ?_, fun n e he => ?_, fun n cause t ht => ?_⟩
  · rw [hitem, item_eq_ok_iff.1 ht]
    rfl
  · rw [hitem, item_eq_error_iff.1 he]
    rfl
  · rw [h.after_below earlier n, blame_within cause ht]

/-- Lexers with the same next token that have read the same lines give the same. -/
theorem Below.of_nextToken_eq {k : Nat} {lexer' lexer'' : Lexer} (h : Below k lexer lexer')
    (hnext : lexer''.nextToken = lexer'.nextToken)
    (hblame : lexer''.blame = lexer'.blame) : Below k lexer lexer'' := by
  have hafter : ∀ n, lexer''.after (n + 1) = lexer'.after (n + 1) := by
    intro n
    induction n with
    | zero => exact congrArg Prod.snd hnext
    | succ n ih =>
      rw [Lexer.after, ih]
      rfl
  have hitem : ∀ n, lexer''.item n = lexer'.item n := by
    rintro (_ | n)
    · exact congrArg (fun reply => reply.1.map some) hnext
    · rw [item, hafter, item]
  refine ⟨fun n t ht => hitem n ▸ h.token n t ht, fun n e he => hitem n ▸ h.error n e he, ?_⟩
  rintro (_ | n) cause t ht
  · exact (congrFun (congrFun hblame cause) _).trans (h.blame 0 cause t ht)
  · rw [hafter]
    exact h.blame (n + 1) cause t ht

/-- When a text is used up and no bracket is open, only its lines show in what comes. -/
theorem Regular.below_exhausted (h : (lexer.within #[] more).Regular) (hmore : more ≠ [])
    (hex : lexer.Exhausted) (hopeners : lexer.openers = []) {source : Source}
    (hname : source.name = lexer.source) (htab : source.tab = lexer.tab)
    (hpieces : source.pieces = more) (hsource : (ofSource source).Regular) :
    Below lexer.lines.size (ofSource source) (lexer.within #[] more) := by
  obtain ⟨hrest, hunread⟩ := hex
  obtain ⟨piece, pieces, rfl⟩ := List.exists_cons_of_ne_nil hmore
  obtain ⟨text, rfl, -⟩ := h.lines_unread piece (by simp [within])
  have hline : lexer.line = lexer.lines.size + 1 := by
    simpa [within] using h.next_line hrest (by simp [within])
  refine (hsource.below lexer.lines).of_nextToken_eq ?_ ?_
  · have hleft : (lexer.within #[] (.line text :: pieces)).unread = .line text :: pieces := by
      simp [within, hunread]
    have hright : ((ofSource source).within lexer.lines []).unread = .line text :: pieces := by
      simp [within, ofSource, hpieces]
    have hskip : (lexer.within #[] (.line text :: pieces)).skipBlanks.rest = [] := by
      simp [within, Lexer.skipBlanks, hrest]
    rw [nextToken, hleft, nextTokenFrom_line text pieces hskip, nextToken, hright,
      nextTokenFrom_line text pieces rfl]
    simp [within, Lexer.enterLine, Lexer.skipBlanks, ofSource, hline, hopeners, hname, htab,
      Nat.add_comm]
  · funext cause token
    simp [blame, sourceLine?, within, ofSource, hname, htab]

/-- A diagnostic at a line that has been read does not depend on what is read afterwards. -/
theorem Onward.blame_eq {after : Lexer} (h : lexer.Onward after) (cause : Cause) {t : Token}
    (ht : t.line ≤ lexer.lines.size) : after.blame cause t = lexer.blame cause t := by
  obtain ⟨texts, -, hlines⟩ := h.read
  have hcontext : after.sourceLine? t.line = lexer.sourceLine? t.line := by
    unfold sourceLine?
    split
    · rfl
    · have hlt : t.line - 1 < lexer.lines.toList.length := by
        rw [Array.length_toList]
        omega
      rw [← Array.getElem?_toList, ← Array.getElem?_toList, hlines,
        List.getElem?_append_left hlt, h.tab_eq]
  simp only [blame, hcontext, h.source_eq]

end

end Lexer

end OpticScript
