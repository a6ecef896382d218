import OpticScript.Proofs.Grammar.SettledLines
import OpticScript.Proofs.Lexer.Pieces

/-!
# Texts line by line

A lexer reads every line of a text by itself, but for the brackets, which may be closed in another
line. So it gives the tokens of a text, and does not fail, if and only if each line has symbols
(`CutLine`) and the brackets among all of them are balanced (`Lexer.exists_cutLines`,
`Lexer.failure_cutLines_iff`).
-/

namespace OpticScript

/-! ## Lines -/

/-- The line has these symbols before its end. -/
def CutLine (line : List Char) (symbols : List Symbol) : Prop :=
  ∃ body e, line = body ++ LineEnding.ends e ∧ Cut body symbols

/-- The kinds of the brackets in the lines. -/
def bracketKinds (spellings : List (List Symbol)) : List TokenKind :=
  (spellings.flatten.map Symbol.kind).filter fun kind => kind.opens || kind.opener?.isSome

section

variable {body text : List Char} {symbols : List Symbol} {lines : List (List Char)}
  {spellings : List (List Symbol)} {tokens : List Token} {tab : TabStop} {number : Nat}

theorem CutLine.cut {e : Option LineEnding} (h : CutLine (body ++ LineEnding.ends e) symbols)
    (hbody : ∀ c ∈ body, Text.isLineBreak c = false) : Cut body symbols := by
  obtain ⟨body', e', heq, hcut⟩ := h
  have hsame := congrArg Text.body heq
  rw [Text.body_ends hbody, Text.body_ends hcut.unbroken] at hsame
  rwa [hsame]

theorem CutLine.eq_nil_of_blank (h : CutLine ['\n'] symbols) : symbols = [] := by
  have hcut : Cut [] symbols := CutLine.cut (e := some .lineFeed) h (by simp)
  exact hcut.unique .nil

theorem LineEnding.exists_ends {ending rest : List Char}
    (h : ending = ['\n'] ∨ ending = ['\r', '\n'] ∨ ending = ['\r'] ∧ rest.head? ≠ some '\n') :
    ∃ e : LineEnding, ending = LineEnding.ends (some e) := by
  rcases h with rfl | rfl | ⟨rfl, -⟩
  exacts [⟨.lineFeed, rfl⟩, ⟨.both, rfl⟩, ⟨.carriageReturn, rfl⟩]

/-- The tokens of a line with an end. -/
theorem Cut.ofLine_ended (h : Cut body symbols) (e : LineEnding) (tab : TabStop) (number : Nat) :
    ∃ tokens newline, Reading.ofLine tab number 0 (body ++ LineEnding.ends (some e)) =
        { tokens := tokens ++ [newline], fault := none } ∧
      newline.kind = .newline ∧ tokens.map Token.symbol = symbols ∧
      ∀ t ∈ tokens, t.kind ≠ .newline := by
  obtain ⟨tokens, hreads, hsymbols⟩ := h.reads tab number 0
  obtain ⟨newline, hnewline, -, hending⟩ :=
    Reading.ofLine_ending tab number (0 + tab.span body) (some e)
  have hkinds : ∀ t ∈ (Reading.ofLine tab number 0 body).tokens, t.kind ≠ .newline :=
    Reading.kind_ne_newline h.unbroken
  rw [hreads] at hkinds
  exact ⟨tokens, newline, by rw [Reading.ofLine_ends _ h.unbroken, hreads, hending]; rfl, hnewline,
    hsymbols, hkinds⟩

/-- If nothing is wrong with the reading of lines, each of them has symbols. -/
theorem Reading.exists_cutLines (hlines : Text.IsLines text lines)
    (h : (Reading.ofLines tab number lines).fault = none) :
    ∃ spellings, List.Forall₂ CutLine lines spellings := by
  induction hlines generalizing number with
  | nil => exact ⟨[], .nil⟩
  | last _ hbody =>
    rw [Reading.ofLines, Reading.ofLines, Reading.append_empty] at h
    exact ⟨[_], .cons ⟨_, none, (List.append_nil _).symm, .of_ofLine hbody h⟩ .nil⟩
  | @cons body ending rest pieces hbody hending _ ih =>
    obtain ⟨e, rfl⟩ := LineEnding.exists_ends hending
    rw [Reading.ofLines] at h
    obtain ⟨hfirst, hmore, -⟩ := Reading.append_clean h
    rw [Reading.ofLine_ends _ hbody] at hfirst
    obtain ⟨spellings, hspellings⟩ := ih hmore
    exact ⟨_ :: spellings,
      .cons ⟨body, some e, rfl, .of_ofLine hbody (Reading.append_clean hfirst).1⟩ hspellings⟩

/-- If each line has symbols, they are those of the tokens, with a newline behind the last line that
comes from the lexer or from the line. -/
theorem Reading.ofLines_lined (hlines : Text.IsLines text lines)
    (h : List.Forall₂ CutLine lines spellings) (hne : lines ≠ []) (tab : TabStop) (number : Nat) :
    ∃ tokens, Reading.ofLines tab number lines = { tokens, fault := none } ∧
      ∀ newline mark : Token, newline.kind = .newline → mark.kind = .endMarker →
        Lined spellings
          (tokens ++
              ((if !text.getLast?.any Text.isLineBreak then [newline] else []) ++ [mark])) := by
  induction hlines generalizing spellings number with
  | nil => exact absurd rfl hne
  | @last body _ hbody =>
    cases h with
    | cons hfirst hmore =>
      cases hmore
      have hlacks : (!body.getLast?.any Text.isLineBreak) = true := by
        have := Text.any_getLast_ends hbody none
        rw [LineEnding.ends, List.append_nil] at this
        rw [this]
        rfl
      rw [← List.append_nil body] at hfirst
      obtain ⟨tokens, hreads, rfl⟩ := (CutLine.cut (e := none) hfirst hbody).reads tab number 0
      have hkinds : ∀ t ∈ (Reading.ofLine tab number 0 body).tokens, t.kind ≠ .newline :=
        Reading.kind_ne_newline hbody
      rw [hreads] at hkinds
      refine ⟨tokens, by rw [Reading.ofLines, Reading.ofLines, Reading.append_empty, hreads], ?_⟩
      intro newline mark hnewline hmark
      rw [hlacks]
      exact .cons hkinds hnewline (.nil hmark)
  | @cons body ending rest pieces hbody hending htail ih =>
    cases h with
    | cons hfirst hmore =>
      obtain ⟨e, rfl⟩ := LineEnding.exists_ends hending
      obtain ⟨line, newline, hreads, hnewline, rfl, hkinds⟩ :=
        (hfirst.cut hbody).ofLine_ended e tab number
      rcases eq_or_ne pieces [] with rfl | hpieces
      · cases hmore
        obtain rfl : rest = [] := htail.flatten_eq.symm
        refine ⟨line ++
          [newline], by rw [Reading.ofLines, hreads, Reading.ofLines, Reading.append_empty],
          fun newline' mark _ hmark => ?_⟩
        rw [List.append_nil, Text.any_getLast_ends hbody]
        simpa using Lined.cons hkinds hnewline (.nil hmark)
      · obtain ⟨tokens, hrest, hlined⟩ := ih hmore hpieces (number + 1)
        have hlast : (body ++ LineEnding.ends (some e) ++ rest).getLast? = rest.getLast? := by
          refine List.getLast?_append_of_ne_nil _ ?_
          rintro rfl
          exact hpieces (Text.isLines_iff.1 htail).symm
        refine ⟨line ++ [newline] ++ tokens, by rw [Reading.ofLines, hreads, hrest]; rfl,
          fun newline' mark hnewline' hmark => ?_⟩
        rw [hlast]
        simpa using Lined.cons hkinds hnewline (hlined newline' mark hnewline' hmark)

/-! ## Brackets -/

theorem bracketKinds_cons (symbols : List Symbol) (spellings : List (List Symbol)) :
    bracketKinds (symbols :: spellings) =
      (symbols.map Symbol.kind).filter (fun kind => kind.opens || kind.opener?.isSome) ++
        bracketKinds spellings := by
  simp [bracketKinds]

/-- A comment has no brackets. -/
theorem bracketKinds_note {note : List Symbol} (hnote : IsOptional .comment note) :
    bracketKinds ((symbols ++ note) :: spellings) = bracketKinds (symbols :: spellings) := by
  have hnone : (note.map Symbol.kind).filter (fun kind => kind.opens || kind.opener?.isSome) =
      [] := by
    rcases hnote with rfl | ⟨comment, rfl, hkind⟩
    · rfl
    · simp [hkind, TokenKind.opens, TokenKind.opener?]
  rw [bracketKinds_cons, bracketKinds_cons, List.map_append, List.filter_append, hnone,
    List.append_nil]

theorem brackets_kinds (tokens : List Token) : (brackets tokens).map Token.kind =
    (tokens.map Token.kind).filter fun kind => kind.opens || kind.opener?.isSome := by
  rw [brackets, List.filter_map]
  rfl

theorem Lined.brackets_kinds (h : Lined spellings tokens) :
    (brackets tokens).map Token.kind = bracketKinds spellings := by
  rw [OpticScript.brackets_kinds]
  induction h with
  | nil hmark => simp [bracketKinds, hmark, TokenKind.opens, TokenKind.opener?]
  | @cons line rest newline spellings _ hnewline _ ih =>
    have hkinds : (line.map Token.symbol).map Symbol.kind = line.map Token.kind := List.map_map
    rw [bracketKinds_cons, hkinds, ← ih]
    simp [hnewline, TokenKind.opens, TokenKind.opener?]

end

/-! ## Texts -/

namespace Lexer

variable {name text : String} {tab : TabStop} {spellings : List (List Symbol)}

/-- If each line of a text has symbols, the lexer does not fail on it if and only if the brackets
among them are balanced, and then its tokens have these symbols. -/
theorem failure_cutLines_iff (name : String) (tab : TabStop)
    (h : List.Forall₂ CutLine (Text.lines text.toList) spellings) (hne : text ≠ "") :
    ((ofSource (.ofText name text tab)).toEnd.failure = none ↔
      ∃ word, Balanced word ∧ word.map Token.kind = bracketKinds spellings) ∧
    ((ofSource (.ofText name text tab)).toEnd.failure = none →
      Lined spellings (ofSource (.ofText name text tab)).toEnd.tokens) := by
  have hlines : Text.lines text.toList ≠ [] := fun hnil =>
    hne (String.toList_eq_nil_iff.1 (Text.lines_eq_nil hnil))
  obtain ⟨tokens, hreads, hlined⟩ := Reading.ofLines_lined (Text.isLines_lines _) h hlines tab 1
  have hreading : Reading.ofText text tab = { tokens, fault := none } := hreads
  have hkinds : (brackets tokens).map Token.kind = bracketKinds spellings := by
    rw [← (hlined (.synthetic .newline 1 1) (.synthetic .endMarker 1 1) rfl rfl).brackets_kinds,
      brackets, brackets, List.filter_append]
    have hnone : ∀ b : Bool, ((if b then [Token.synthetic .newline 1 1] else []) ++
        [Token.synthetic .endMarker 1 1]).filter Token.isBracket = [] := by decide
    rw [hnone, List.append_nil]
  rw [failure_eq_none_iff, hreading]
  refine ⟨⟨fun hclean => ⟨_, hclean.2, hkinds⟩, ?_⟩, fun hclean => ?_⟩
  · rintro ⟨word, hword, heq⟩
    exact ⟨rfl, hword.of_kinds (heq.trans hkinds.symm)⟩
  · have hcheck := Reading.check_of_some (r := { tokens, fault := none })
      ((nestAll?_brackets [] _).symm.trans (hclean.2.nestAll? []))
    obtain ⟨-, newline, mark, hnewline, hmark, htokens⟩ := gives_ofText name text tab
    rw [hreading, hcheck] at htokens
    rw [htokens]
    exact hlined newline mark hnewline hmark

/-- Each line of a text that the lexer does not fail on has symbols. -/
theorem exists_cutLines (h : (ofSource (.ofText name text tab)).toEnd.failure = none) :
    ∃ spellings, List.Forall₂ CutLine (Text.lines text.toList) spellings :=
  Reading.exists_cutLines (Text.isLines_lines _) (failure_eq_none_iff.1 h).1

end Lexer

end OpticScript
