import OpticScript.Proofs.Lexer.Columns
import OpticScript.Proofs.Lexer.Spelling

/-!
# Pieces of a line

The tokens of a piece of a line have the same symbols wherever it stands (`Cut`). If a blank, a
comma, a comment or the end of the line comes behind the piece, its tokens come first and those of
what comes after them (`Reading.ofLine_append`, `Cut.append`); the end of the line is one more
token, or none, and nothing else (`Reading.ofLine_ends`). So a lexer gives the symbols of a text
of a single line, if its brackets are balanced (`Nested`), and then a newline and the end marker,
be there a line end or not (`Cut.shows`).
-/

namespace OpticScript

open Lexeme

namespace Reading

section

variable {tab : TabStop} {number : Nat} {column : UInt64} {text tail : List Char}

/-- A lexeme of a piece comes before what is left of the piece and what is behind it. -/
theorem ofLine_cons_append {c : Char} (hc : Lexer.isBlank c = false) {lexeme : Lexeme}
    (hsize : lexeme.size ≤ (c :: text).length) (hscan : scan? (c :: text ++ tail) = some lexeme) :
    ofLine tab number column (c :: text ++ tail) =
      let token := Token.placed tab number column lexeme.kind ((c :: text).take lexeme.size)
      match literal? lexeme.kind ((c :: text).take lexeme.size) with
      | none => faulty .invalidNumber token
      | some literal => (ofLine tab number (column + tab.span ((c :: text).take lexeme.size))
          ((c :: text).drop lexeme.size ++ tail)).cons (token.withLiteral literal) := by
  have htake : (c :: text ++ tail).take lexeme.size = (c :: text).take lexeme.size :=
    List.take_append_of_le_length hsize
  have hdrop : (c :: text ++ tail).drop lexeme.size = (c :: text).drop lexeme.size ++ tail :=
    List.drop_append_of_le_length hsize
  rw [← htake, ← hdrop]
  rw [List.cons_append] at hscan ⊢
  rw [ofLine, if_neg (by simp [hc])]
  cases hliteral : literal? lexeme.kind ((c :: (text ++ tail)).take lexeme.size) <;>
    simp [hscan, hliteral]

/-- What a piece of a line begins with is a part of it, and not the end of the line. -/
theorem scan_unbroken {c : Char} (hunbroken : ∀ d ∈ c :: text, Text.isLineBreak d = false)
    {lexeme : Lexeme} (hscan : scan? (c :: text) = some lexeme) :
    lexeme.size ≤ (c :: text).length ∧ lexeme.kind ≠ .newline := by
  have hline : Text.IsLine (c :: text) := by
    have h := Text.isLine_ends hunbroken none
    rwa [LineEnding.ends, List.append_nil] at h
  have hbody : 0 < Text.bodyLength (c :: text) := by
    simp [Text.bodyLength, hunbroken c List.mem_cons_self]
  obtain ⟨hsize, hkind, -⟩ := size_le_bodyLength hline hbody hscan
  exact ⟨hsize.trans (Text.bodyLength_le_length _), hkind⟩

theorem unbroken_drop {n : Nat} (hunbroken : ∀ d ∈ text, Text.isLineBreak d = false) :
    ∀ d ∈ text.drop n, Text.isLineBreak d = false :=
      fun d hd => hunbroken d (List.mem_of_mem_drop hd)

theorem span_take_drop (tab : TabStop) (n : Nat) (text : List Char) :
    tab.span (text.take n) + tab.span (text.drop n) = tab.span text := by
  rw [← TabStop.span_append, List.take_append_drop]

/-- The tokens of a line are those of what comes before its end, and then those of the end. -/
theorem ofLine_ends (e : Option LineEnding) (hunbroken : ∀ d ∈ text, Text.isLineBreak d = false) :
    ofLine tab number column (text ++ LineEnding.ends e) = (ofLine tab number column text).append
      (ofLine tab number (column + tab.span text) (LineEnding.ends e)) := by
  fun_induction ofLine tab number column text with
  | case1 column => rw [List.nil_append, TabStop.span_nil, UInt64.add_zero, empty_append]
  | case2 column c text hc ih =>
    rw [List.cons_append, ofLine, if_pos hc, ih (List.forall_mem_cons.1 hunbroken).2,
      TabStop.span_cons, UInt64.add_assoc]
  | case3 column c text hc hscan =>
    have hscan' := (scan_ends e (hunbroken c List.mem_cons_self) text).trans hscan
    have hbody := (Text.body_ends hunbroken e).trans (Text.body_ends hunbroken none).symm
    rw [LineEnding.ends, List.append_nil] at hbody
    rw [List.cons_append] at hscan' hbody ⊢
    rw [ofLine, if_neg hc, faulty_append]
    simp only [hscan', hbody]
  | case4 column c text hc lexeme hscan taken token hliteral =>
    have hscan' := (scan_ends e (hunbroken c List.mem_cons_self) text).trans hscan
    have htaken := (scan_unbroken hunbroken hscan).1
    rw [ofLine_cons_append (by simpa using hc) htaken hscan', faulty_append]
    simp only [show literal? _ ((c :: text).take lexeme.size) = none from hliteral]
    rfl
  | case5 column c text hc lexeme hscan taken token literal hliteral ih =>
    have hscan' := (scan_ends e (hunbroken c List.mem_cons_self) text).trans hscan
    have htaken := (scan_unbroken hunbroken hscan).1
    rw [ofLine_cons_append (by simpa using hc) htaken hscan', cons_append]
    simp only [show literal? _ ((c :: text).take lexeme.size) = some literal from hliteral]
    rw [ih (unbroken_drop hunbroken), UInt64.add_assoc, span_take_drop]

/-- The tokens of a piece come before those of what is behind it, if a pause comes there and none
of them is a comment. -/
theorem ofLine_append (hpauses : Pauses tail) (hunbroken : ∀ d ∈ text, Text.isLineBreak d = false)
    {tokens : List Token} (h : ofLine tab number column text = { tokens, fault := none })
    (hcomment : ∀ t ∈ tokens, t.kind ≠ .comment) :
    ofLine tab number column (text ++ tail) =
      append { tokens, fault := none } (ofLine tab number (column + tab.span text) tail) := by
  fun_induction ofLine tab number column text generalizing tokens with
  | case1 column =>
    obtain rfl : [] = tokens := congrArg Reading.tokens h
    rw [List.nil_append, TabStop.span_nil, UInt64.add_zero]
    rfl
  | case2 column c text hc ih =>
    rw [List.cons_append, ofLine, if_pos hc, ih (List.forall_mem_cons.1 hunbroken).2 h hcomment,
      TabStop.span_cons, UInt64.add_assoc]
  | case3 => simp [faulty] at h
  | case4 => simp [faulty] at h
  | case5 column c text hc lexeme hscan taken token literal hliteral =>
    rename_i ih
    set r := ofLine tab number (column + tab.span taken) ((c :: text).drop lexeme.size) with hr
    obtain ⟨tokens', hr'⟩ : ∃ tokens', r = { tokens := tokens', fault := none } :=
      ⟨r.tokens, congrArg (Reading.mk r.tokens) (congrArg Reading.fault h)⟩
    obtain rfl : token.withLiteral literal :: tokens' = tokens := by
      rw [hr'] at h
      exact congrArg Reading.tokens h
    obtain ⟨hfirst, hmore⟩ := List.forall_mem_cons.1 hcomment
    have hscan' := scan_of_pauses hpauses (hunbroken c List.mem_cons_self) hscan hfirst
    rw [ofLine_cons_append (by simpa using hc) (scan_unbroken hunbroken hscan).1 hscan']
    simp only [show literal? _ ((c :: text).take lexeme.size) = some literal from hliteral]
    rw [ih (unbroken_drop hunbroken) hr' hmore, UInt64.add_assoc, span_take_drop]
    rfl

/-- If nothing is wrong with two readings, nothing is wrong with any of them. -/
theorem append_clean {r r' : Reading} (h : (r.append r').fault = none) :
    r.fault = none ∧ r'.fault = none ∧ (r.append r').tokens = r.tokens ++ r'.tokens := by
  unfold append at h ⊢
  split at h
  · rename_i hfault
    simp [h] at hfault
  · rename_i hfault
    exact ⟨by simpa using hfault, h, by rw [if_neg hfault]⟩

theorem clean_of_append {r r' : Reading} {tokens : List Token}
    (h : r.append r' = { tokens, fault := none }) :
    r.fault = none ∧ r'.fault = none ∧ tokens = r.tokens ++ r'.tokens := by
  obtain ⟨hr, hr', htokens⟩ := append_clean (congrArg fault h)
  exact ⟨hr, hr', by rw [← htokens, h]⟩

/-- No token of a piece is a newline. -/
theorem kind_ne_newline (hunbroken : ∀ d ∈ text, Text.isLineBreak d = false) :
    ∀ t ∈ (ofLine tab number column text).tokens, t.kind ≠ .newline := by
  fun_induction ofLine tab number column text with
  | case1 => simp [empty]
  | case2 column c text hc ih => exact ih (List.forall_mem_cons.1 hunbroken).2
  | case3 => simp [faulty]
  | case4 => simp [faulty]
  | case5 column c text hc lexeme hscan taken token literal hliteral ih =>
    intro t ht
    rcases List.mem_cons.1 ht with rfl | ht
    · exact (scan_unbroken hunbroken hscan).2
    · exact ih (unbroken_drop hunbroken) t ht

/-- Where a piece stands makes no difference to what its tokens are, nor to whether it has any. -/
theorem ofLine_symbols (tab tab' : TabStop) (number number' : Nat) (column column' : UInt64)
    (text : List Char) : (ofLine tab' number' column' text).tokens.map Token.symbol =
        (ofLine tab number column text).tokens.map Token.symbol ∧
      (ofLine tab' number' column' text).fault.isSome =
        (ofLine tab number column text).fault.isSome := by
  fun_induction ofLine tab number column text generalizing column' with
  | case1 => simp
  | case2 column c text hc ih =>
    rw [ofLine, if_pos hc]
    exact ih _
  | case3 column c text hc hscan =>
    rw [ofLine, if_neg hc]
    simp [hscan, faulty]
  | case4 column c text hc lexeme hscan taken token hliteral =>
    rw [ofLine, if_neg hc]
    simp only [hscan, show literal? _ ((c :: text).take lexeme.size) = none from hliteral]
    exact ⟨rfl, rfl⟩
  | case5 column c text hc lexeme hscan taken token literal hliteral ih =>
    rw [ofLine_cons (by simpa using hc) hscan hliteral]
    obtain ⟨hsymbols, hfault⟩ := ih (column' + tab'.span taken)
    exact ⟨congrArg (Symbol.mk lexeme.kind (String.ofList taken) literal :: ·) hsymbols, hfault⟩

/-- The end of a line is a newline. -/
theorem ofLine_ending (tab : TabStop) (number : Nat) (column : UInt64) (e : Option LineEnding) :
    ∃ newline : Token, newline.kind = .newline ∧
    newline.text = String.ofList (LineEnding.ends e) ∧
    ofLine tab number column (LineEnding.ends e) =
      { tokens := if e.isSome then [newline] else [], fault := none } := by
  have hnewline : ∀ ending : LineEnding, ∃ lexeme, scan? ending.chars = some lexeme ∧
      lexeme.kind = .newline ∧ lexeme.size = ending.chars.length := by
    intro ending
    have hline : Text.IsLine ([] ++ LineEnding.ends (some ending)) :=
      Text.isLine_ends (by simp) (some ending)
    cases ending <;> exact scan_lineBreak hline (by decide) (by decide)
  rcases e with _ | ending
  · exact ⟨.ofText .newline "" 1 1 1, rfl, rfl, ofLine_nil⟩
  · obtain ⟨lexeme, hscan, hkind, hsize⟩ := hnewline ending
    obtain ⟨c, rest, hchars⟩ : ∃ c rest, ending.chars = c :: rest := by
      cases ending <;> exact ⟨_, _, rfl⟩
    have htake : (c :: rest).take lexeme.size = c :: rest := by rw [hsize, hchars, List.take_length]
    have hdrop : (c :: rest).drop lexeme.size = [] := by rw [hsize, hchars, List.drop_length]
    refine ⟨(Token.placed tab number column .newline (c :: rest)).withLiteral
      (.text (String.ofList (c :: rest))), rfl, congrArg String.ofList hchars.symm, ?_⟩
    rw [LineEnding.ends, hchars, ofLine_cons (not_isBlank_of_scan (hchars ▸ hscan)) (hchars ▸ hscan)
      (by rw [hkind]; rfl), htake, hdrop, hkind, ofLine_nil]
    rfl

end

/-- The tokens of a text that is a single line. -/
theorem ofText_line {text : String} {body : List Char} {e : Option LineEnding} (hne : body ≠ [])
    (hunbroken : ∀ c ∈ body, Text.isLineBreak c = false)
    (htext : text.toList = body ++ LineEnding.ends e) (tab : TabStop) :
    ∃ newline : Token, newline.kind = .newline ∧ newline.text = String.ofList (LineEnding.ends e) ∧
      ofText text tab = (ofLine tab 1 0 body).append
        { tokens := if e.isSome then [newline] else [], fault := none } := by
  obtain ⟨newline, hkind, hnewline, hending⟩ := ofLine_ending tab 1 (0 + tab.span body) e
  refine ⟨newline, hkind, hnewline, ?_⟩
  rw [ofText, htext, Text.lines_ends hne hunbroken, ofLines, ofLines, append_empty,
    ofLine_ends e hunbroken, hending]

end Reading

/-! ## Pieces -/

/-- These brackets are balanced, whatever brackets are open before them. -/
def Nested (symbols : List Symbol) : Prop :=
  ∀ tokens openers, tokens.map Token.symbol = symbols → nestAll? openers tokens = some openers

theorem Nested.append {symbols more : List Symbol} (h : Nested symbols) (h' : Nested more) :
    Nested (symbols ++ more) := fun tokens openers heq => by
  obtain ⟨tokens, tokens', rfl, hsymbols, hmore⟩ := List.map_eq_append_iff.1 heq
  rw [nestAll?_append, h tokens openers hsymbols]
  exact h' tokens' openers hmore

/-- A mark that is no bracket. -/
theorem Nested.of_not_isBracket {symbol : Symbol}
    (h : symbol.kind.opens = false ∧ symbol.kind.opener? = none) :
    Nested [symbol] := fun tokens openers heq => by
  obtain ⟨t, rfl, rfl⟩ := List.map_eq_singleton_iff.1 heq
  have hbracket : t.isBracket = false := by simpa [Token.isBracket, Token.symbol] using h
  rw [nestAll?_cons, nest?_of_not_isBracket hbracket]
  rfl

/-- Where the brackets stand makes no difference to whether they are balanced. -/
theorem Balanced.of_kinds {word word' : List Token} (h : Balanced word)
    (hkinds : word.map Token.kind = word'.map Token.kind) : Balanced word' := by
  induction h generalizing word' with
  | nil =>
    obtain rfl : word' = [] := by simpa using hkinds.symm
    exact .nil
  | @wrap opening closing inner hpair _ ih =>
    obtain ⟨opening', rest, rfl, hopening, hrest⟩ := List.map_eq_cons_iff.1 hkinds.symm
    obtain ⟨inner', last, rfl, hinner, hlast⟩ :=
      List.map_eq_append_iff.1 (hrest.trans List.map_append)
    obtain ⟨closing', rfl, hclosing⟩ := List.map_eq_singleton_iff.1 hlast
    exact .wrap (by rw [hclosing, hopening, hpair]) (ih hinner.symm)
  | @append first second _ _ ih ih' =>
    obtain ⟨first', second', rfl, hfirst, hsecond⟩ :=
      List.map_eq_append_iff.1 (hkinds.symm.trans List.map_append)
    exact .append (ih hfirst.symm) (ih' hsecond.symm)

/-- Tokens with balanced brackets have them wherever they stand. -/
theorem nested_of_balanced {tokens : List Token} (h : Balanced (brackets tokens)) :
    Nested (tokens.map Token.symbol) := fun tokens' openers heq => by
  have hbrackets : ∀ tokens : List Token, (brackets tokens).map Token.kind =
      ((tokens.map Token.symbol).map Symbol.kind).filter fun kind =>
        kind.opens || kind.opener?.isSome := by
    intro tokens
    rw [List.map_map, List.filter_map]
    rfl
  rw [← nestAll?_brackets]
  refine (h.of_kinds ?_).nestAll? openers
  rw [hbrackets, hbrackets, heq]

/-- The text is a part of a line, and is read as tokens of these symbols wherever it stands. -/
structure Cut (text : List Char) (symbols : List Symbol) : Prop where
  unbroken : ∀ c ∈ text, Text.isLineBreak c = false
  reads : ∀ tab number column, ∃ tokens,
    Reading.ofLine tab number column text = { tokens, fault := none } ∧
      tokens.map Token.symbol = symbols

namespace Cut

variable {text text' : List Char} {symbols symbols' : List Symbol}

theorem of_ofLine {tab : TabStop} {number : Nat} {column : UInt64}
    (hunbroken : ∀ c ∈ text, Text.isLineBreak c = false)
    (h : (Reading.ofLine tab number column text).fault = none) :
    Cut text ((Reading.ofLine tab number column text).tokens.map Token.symbol) where
  unbroken := hunbroken
  reads tab' number' column' := by
    obtain ⟨hsymbols, hfault⟩ := Reading.ofLine_symbols tab tab' number number' column column' text
    rw [h, Option.isSome_none, Option.isSome_eq_false_iff, Option.isNone_iff_eq_none] at hfault
    exact ⟨_, congrArg (Reading.mk _) hfault, hsymbols⟩

theorem unique (h : Cut text symbols) (h' : Cut text symbols') : symbols = symbols' := by
  obtain ⟨tokens, hreads, rfl⟩ := h.reads default 1 0
  obtain ⟨tokens', hreads', rfl⟩ := h'.reads default 1 0
  rw [hreads] at hreads'
  rw [show tokens = tokens' from congrArg Reading.tokens hreads']

theorem nil : Cut [] [] where
  unbroken := by simp
  reads _ _ _ := ⟨[], Reading.ofLine_nil, rfl⟩

theorem blank {c : Char} (hc : Lexer.isBlank c = true) (h : Cut text symbols) :
    Cut (c :: text) symbols where
  unbroken := List.forall_mem_cons.2 ⟨Text.isLineBreak_of_isBlank hc, h.unbroken⟩
  reads tab number column := by
    rw [Reading.ofLine, if_pos hc]
    exact h.reads tab number (column + tab.columns c)

/-- A symbol in front of a piece. -/
theorem cons {symbol : Symbol} (hscans : symbol.Scans text) (h : Cut text symbols) :
    Cut (symbol.text.toList ++ text) (symbol :: symbols) where
  unbroken := List.forall_mem_append.2 ⟨hscans.unbroken, h.unbroken⟩
  reads tab number column := by
    obtain ⟨t, rfl, hreads⟩ := hscans.ofLine tab number column
    obtain ⟨tokens, hmore, rfl⟩ := h.reads tab number (column + tab.span t.symbol.text.toList)
    exact ⟨t :: tokens, by rw [hreads, hmore]; rfl, rfl⟩

theorem of_blank {c : Char} (hc : Lexer.isBlank c = true) (h : Cut (c :: text) symbols) :
    Cut text symbols := by
  obtain ⟨tokens, hreads, rfl⟩ := h.reads default 1 0
  rw [Reading.ofLine, if_pos hc] at hreads
  have hfault := congrArg Reading.fault hreads
  rw [← show _ = tokens from congrArg Reading.tokens hreads]
  exact of_ofLine (List.forall_mem_cons.1 h.unbroken).2 hfault

/-- A comment up to the end of its line. -/
theorem comment (hunbroken : ∀ c ∈ text, Text.isLineBreak c = false) :
    ∃ comment : Symbol, comment.kind = .comment ∧ Cut ('#' :: text) [comment] := by
  have hall : ∀ c ∈ '#' :: text, Text.isLineBreak c = false :=
    List.forall_mem_cons.2 ⟨rfl, hunbroken⟩
  have htake : text.takeWhile (fun c => !Text.isLineBreak c) = text := by
    rw [List.takeWhile_eq_self_iff]
    simpa using hunbroken
  have hscan : scan? ('#' :: text) = some { kind := .comment, size := text.length + 1,
                                            size_pos := Nat.succ_pos _ } := by
    rw [scan_hash, commentSize?, htake, Nat.add_comm]
    rfl
  have hreads : Reading.ofLine default 1 0 ('#' :: text) = _ := Reading.ofLine_cons rfl hscan rfl
  have hdrop : ('#' :: text).drop (text.length + 1) = [] := List.drop_length
  rw [hdrop, Reading.ofLine_nil] at hreads
  have hcut := of_ofLine hall (congrArg Reading.fault hreads)
  rw [hreads] at hcut
  exact ⟨_, rfl, hcut⟩

/-- A piece and what is behind it, if a pause comes there. -/
theorem append (h : Cut text symbols) (hcomment : ∀ symbol ∈ symbols, symbol.kind ≠ .comment)
    (hpauses : Pauses text') (h' : Cut text' symbols') :
    Cut (text ++ text') (symbols ++ symbols') where
  unbroken := List.forall_mem_append.2 ⟨h.unbroken, h'.unbroken⟩
  reads tab number column := by
    obtain ⟨tokens, hreads, rfl⟩ := h.reads tab number column
    obtain ⟨tokens', hreads', rfl⟩ := h'.reads tab number (column + tab.span text)
    refine ⟨tokens ++ tokens', ?_, List.map_append⟩
    rw [Reading.ofLine_append hpauses h.unbroken hreads, hreads']
    · rfl
    · simpa [Token.symbol] using hcomment

/-- What is behind a piece is read if the whole is. -/
theorem of_append (h : Cut text symbols) (hcomment : ∀ symbol ∈ symbols, symbol.kind ≠ .comment)
    (hpauses : Pauses text')
    (hwhole : Cut (text ++ text') symbols') :
    ∃ more, symbols' = symbols ++ more ∧ Cut text' more := by
  obtain ⟨tokens, hreads, rfl⟩ := h.reads default 1 0
  obtain ⟨whole, hwhole', rfl⟩ := hwhole.reads default 1 0
  have hunbroken := (List.forall_mem_append.1 hwhole.unbroken).2
  rw [Reading.ofLine_append hpauses h.unbroken hreads (by simpa [Token.symbol] using hcomment)]
    at hwhole'
  obtain ⟨-, hclean, rfl⟩ := Reading.clean_of_append hwhole'
  exact ⟨_, List.map_append, of_ofLine hunbroken hclean⟩

end Cut

/-- What is spelled is cut into its symbols. -/
theorem Spelling.cut {text : List Char} {symbols : List Symbol} (h : Spelling text symbols) :
    Cut text symbols := by
  have hline := h.line
  obtain ⟨body, hbody, hunbroken⟩ := hline.exists_body
  obtain ⟨rfl, -⟩ := List.append_inj' hbody rfl
  obtain ⟨tokens, hreads, hsymbols⟩ := hline.ofLine default 1 0
  obtain ⟨newline, hkind, -, hending⟩ :=
    Reading.ofLine_ending default 1 (0 + TabStop.span default text) (some .lineFeed)
  have hends : ['\n'] = LineEnding.ends (some .lineFeed) := rfl
  rw [hends, Reading.ofLine_ends _ hunbroken, hending] at hreads
  obtain ⟨hclean, -, rfl⟩ := Reading.clean_of_append hreads
  rw [List.map_append] at hsymbols
  obtain ⟨rfl, -⟩ := List.append_inj' hsymbols rfl
  exact .of_ofLine hunbroken hclean

/-! ## Texts of one line -/

namespace Lexer

section

variable {body : List Char} {text : String} {e : Option LineEnding} {name : String} {tab : TabStop}
  (hunbroken : ∀ c ∈ body, Text.isLineBreak c = false) (hne : body ≠ [])
  (htext : text.toList = body ++ LineEnding.ends e)

include hunbroken hne htext

/-- A lexer does not fail on a line if it can read it and the brackets are balanced. -/
theorem failure_line_iff : (ofSource (.ofText name text tab)).toEnd.failure = none ↔
    (Reading.ofLine tab 1 0 body).fault = none ∧
      Balanced (brackets (Reading.ofLine tab 1 0 body).tokens) := by
  obtain ⟨newline, hnewline, -, hreading⟩ := Reading.ofText_line hne hunbroken htext tab
  have hending : brackets (if e.isSome then [newline] else []) = [] := by
    split
    · simp [brackets, Token.isBracket, hnewline, TokenKind.opens, TokenKind.opener?]
    · rfl
  rw [failure_eq_none_iff, hreading, Reading.append]
  split
  · rename_i hfault
    have hne : (Reading.ofLine tab 1 0 body).fault ≠ none := Option.isSome_iff_ne_none.1 hfault
    exact iff_of_false (fun h => hne h.1) fun h => hne h.1
  · rename_i hfault
    have hclean : (Reading.ofLine tab 1 0 body).fault = none := by simpa using hfault
    have htokens :
        brackets ((Reading.ofLine tab 1 0 body).tokens ++ if e.isSome then [newline] else []) =
        brackets (Reading.ofLine tab 1 0 body).tokens := by
      rw [brackets, List.filter_append, ← brackets, ← brackets, hending, List.append_nil]
    rw [htokens, hclean]

/-- A newline and the end marker come behind the tokens of a line. -/
theorem toEnd_line (h : (ofSource (.ofText name text tab)).toEnd.failure = none) :
    ∃ newline mark : Token, newline.kind = .newline ∧ mark.kind = .endMarker ∧
      (e.isSome → newline.text = String.ofList (LineEnding.ends e)) ∧
      (ofSource (.ofText name text tab)).toEnd.tokens =
        (Reading.ofLine tab 1 0 body).tokens ++ [newline, mark] := by
  obtain ⟨hclean, -⟩ := (failure_line_iff hunbroken hne htext).1 h
  obtain ⟨hfault, hbalanced⟩ := failure_eq_none_iff.1 h
  obtain ⟨newline, hnewline, hends, hreading⟩ := Reading.ofText_line hne hunbroken htext tab
  have hcheck := Reading.check_of_some ((nestAll?_brackets [] _).symm.trans (hbalanced.nestAll? []))
  obtain ⟨-, newline', mark, hnewline', hmark, htokens⟩ := gives_ofText name text tab
  have hlacks : (!text.toList.getLast?.any Text.isLineBreak) = !e.isSome := by
    rw [htext, Text.any_getLast_ends hunbroken]
  rw [hcheck, hfault, hlacks, hreading, Reading.append, hclean] at htokens
  rcases e with _ | ending
  · exact ⟨newline', mark, hnewline', hmark, by simp, by simpa using htokens⟩
  · exact ⟨newline, mark, hnewline, hmark, fun _ => hends, by simpa using htokens⟩

end

variable {name text : String} {tab : TabStop}

/-- If the newlines of a text are empty, no line of it is ended. -/
theorem unbroken_of_newlines (h : (ofSource (.ofText name text tab)).toEnd.failure = none)
    (hnewlines : ∀ t ∈ (ofSource (.ofText name text tab)).toEnd.tokens, t.kind = .newline →
      t.text = "") :
    ∀ c ∈ text.toList, Text.isLineBreak c = false := by
  obtain ⟨hfault, hbalanced⟩ := failure_eq_none_iff.1 h
  have hcheck := Reading.check_of_some ((nestAll?_brackets [] _).symm.trans (hbalanced.nestAll? []))
  obtain ⟨-, _, _, -, -, htokens⟩ := gives_ofText name text tab
  have hmem : ∀ t ∈ (Reading.ofText text tab).tokens, t.kind = .newline → t.text = "" := fun t ht =>
    hnewlines t (by rw [htokens, hcheck]; exact List.mem_append_left _ ht)
  have hlines := Text.isLines_lines text.toList
  rw [Reading.ofText] at hfault hmem
  generalize Text.lines text.toList = lines at hlines hfault hmem
  generalize text.toList = chars at hlines
  cases hlines with
  | nil => simp
  | last _ hbody => exact hbody
  | @cons body ending rest pieces hbody hending =>
    obtain ⟨e, rfl⟩ : ∃ e : LineEnding, ending = LineEnding.ends (some e) := by
      rcases hending with rfl | rfl | ⟨rfl, -⟩
      exacts [⟨.lineFeed, rfl⟩, ⟨.both, rfl⟩, ⟨.carriageReturn, rfl⟩]
    obtain ⟨newline, hkind, htext, hread⟩ :=
      Reading.ofLine_ending tab 1 (0 + tab.span body) (some e)
    rw [Reading.ofLines, Reading.ofLine_ends _ hbody, hread] at hfault hmem
    obtain ⟨hline, -, hall⟩ := Reading.append_clean hfault
    obtain ⟨-, -, hfirst⟩ := Reading.append_clean hline
    have hempty := hmem newline (by rw [hall, hfirst]; simp) hkind
    rw [htext, ← String.toList_inj, String.toList_ofList] at hempty
    cases e <;> simp [LineEnding.ends, LineEnding.chars] at hempty

/-- The tokens of a text that has no line break. -/
theorem exists_cut (hne : text ≠ "") (hunbroken : ∀ c ∈ text.toList, Text.isLineBreak c = false)
    (h : (ofSource (.ofText name text tab)).toEnd.failure = none) :
    ∃ tokens newline mark, (ofSource (.ofText name text tab)).toEnd.tokens =
      tokens ++ [newline, mark] ∧
      newline.kind = .newline ∧ mark.kind = .endMarker ∧ (∀ t ∈ tokens, t.kind ≠ .newline) ∧
      Cut text.toList (tokens.map Token.symbol) ∧ Balanced (brackets tokens) := by
  have hchars : text.toList ≠ [] := mt String.toList_eq_nil_iff.1 hne
  have htext : text.toList = text.toList ++ LineEnding.ends none := (List.append_nil _).symm
  obtain ⟨hclean, hbalanced⟩ := (failure_line_iff hunbroken hchars htext).1 h
  obtain ⟨newline, mark, hnewline, hmark, -, htokens⟩ := toEnd_line hunbroken hchars htext h
  exact ⟨_, newline, mark, htokens, hnewline, hmark, Reading.kind_ne_newline hunbroken,
    .of_ofLine hunbroken hclean, hbalanced⟩

end Lexer

/-- A lexer gives the symbols of a single line, and then a newline and the end marker. -/
theorem Cut.shows {body : List Char} {symbols : List Symbol} (h : Cut body symbols)
    (hnested : Nested symbols) (hne : body ≠ []) {text : String} {e : Option LineEnding}
    (htext : text.toList = body ++ LineEnding.ends e) (name : String) (tab : TabStop) :
    let items := (Lexer.ofSource (.ofText name text tab)).item
    Shows items 0 symbols ∧ Sees items symbols.length (· = .newline) ∧
      Sees items (symbols.length + 1) (· = .endMarker) := by
  intro items
  obtain ⟨tokens, hreads, rfl⟩ := h.reads tab 1 0
  obtain ⟨hbalanced⟩ := opened_of_nestAll? (hnested tokens [] rfl)
  have hfailure : (Lexer.ofSource (.ofText name text tab)).toEnd.failure = none := by
    rw [Lexer.failure_line_iff h.unbroken hne htext, hreads]
    exact ⟨rfl, hbalanced⟩
  obtain ⟨newline, mark, hnewline, hmark, -, htokens⟩ :=
    Lexer.toEnd_line h.unbroken hne htext hfailure
  rw [hreads] at htokens
  have hlists : Lists items 0 (tokens ++ [newline, mark]) := htokens ▸ Lexer.lists_toEnd _
  obtain ⟨hlists, hitem, hitem', -⟩ := lists_append.1 hlists
  rw [Nat.zero_add] at hitem hitem'
  rw [List.length_map]
  exact ⟨shows_iff_lists.2 ⟨tokens, rfl, hlists⟩, ⟨newline, hitem, hnewline⟩, mark, hitem', hmark⟩

end OpticScript
