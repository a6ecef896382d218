import OpticScript.Proofs.Grammar.Faults
import OpticScript.Proofs.Lexeme.Forms
import OpticScript.Proofs.Script.Columns
import OpticScript.Proofs.Script.Endings
import OpticScript.Proofs.Script.Motions
import OpticScript.Proofs.Script.Parts

/-!
# Digits for a parameter

A line of a directive and digits is read as a command with their value, or it is an error that
blames all of them, the zeros in front or what comes behind these (`Script.ofSource_digits`).
Zeros that go on with another digit are two numbers with nothing between them
(`Reading.ofLine_zeros`). What ends the first line is what is wrong with the script : an error
of the lexer (`Script.ofSource_of_item`) or a complaint of the grammar
(`Script.ofSource_of_complaint`).
-/

namespace OpticScript

open Filter Packrat Packrat.Outcome Lexeme

/-! ## The tokens of a line -/

/-- The token of the digits of an integer behind so many columns of a line. -/
def Token.ofDigits (tab : TabStop) (number : Nat) (column : UInt64) (digits : List Char) : Token :=
  (Token.placed tab number column .number digits).withLiteral
    (.number (.integer (Decimal.ofDigits digits)))

@[simp] theorem Token.kind_ofDigits (tab : TabStop) (number : Nat) (column : UInt64)
    (digits : List Char) : (Token.ofDigits tab number column digits).kind = .number := rfl

theorem Token.adjoins_ofDigits (tab : TabStop) (number : Nat) (column : UInt64)
    (digits more : List Char) : (Token.ofDigits tab number column digits).adjoins
      (.ofDigits tab number (column + tab.span digits) more) = true := by
  simp [adjoins, ofDigits, withLiteral, placed, ofText]

theorem endsNumeral_nil : EndsNumeral [] := by
  simp [EndsNumeral]

theorem Lexeme.IsDigits.notMem {digits : List Char} (h : IsDigits digits) {c : Char}
    (hc : c.isDigit = false) : c ∉ digits := fun hmem => by
  simp [h.2 c hmem] at hc

theorem Decimal.ofDigits_zeros {zeros : List Char} (h : ∀ c ∈ zeros, c = '0') :
    ofDigits zeros = 0 := by
  rw [List.eq_replicate_of_mem h]
  induction zeros.length with
  | zero => rfl
  | succ n ih => exact ih

section

variable {tab : TabStop} {number : Nat} {column : UInt64} {digits zeros rest : List Char}

/-- Digits that are a numeral are a number, or too large for one. -/
theorem Reading.ofLine_numeral (hdigits : IsDigits digits)
    (hsize : numeralSize? (digits ++ rest) = some digits.length) :
    ofLine tab number column (digits ++ rest) =
      if Decimal.ofDigits digits < Number.integerLimit then
        (ofLine tab number (column + tab.span digits) rest).cons
          (.ofDigits tab number column digits)
      else .faulty .invalidNumber (.placed tab number column .number digits) := by
  obtain ⟨hne, hall⟩ := hdigits
  obtain ⟨c, tail, rfl⟩ := List.exists_cons_of_ne_nil hne
  have hdigit : c.isDigit = true := hall c List.mem_cons_self
  have hblank : Lexer.isBlank c = false := by
    rw [Bool.eq_false_iff, ne_eq, Lexer.isBlank, Bool.or_eq_true, decide_eq_true_eq,
      decide_eq_true_eq]
    rintro (rfl | rfl) <;> simp at hdigit
  obtain ⟨lexeme, hscan, hkind, hlength⟩ := scan_numeral (.inl hdigit) hsize
  have htake : (c :: tail).take lexeme.size = c :: tail := by rw [hlength, List.take_length]
  have hdrop : (c :: tail).drop lexeme.size = [] := by rw [hlength, List.drop_length]
  rw [ofLine_cons_append hblank hlength.le hscan, htake, hdrop, hkind, List.nil_append, literal?,
    numeralValue_digits hall]
  by_cases hlt : Decimal.ofDigits (c :: tail) < Number.integerLimit
  · rw [if_pos hlt, if_pos hlt]
    rfl
  · rw [if_neg hlt, if_neg hlt]
    rfl

/-- Digits are a numeral of their own, if a zero comes first only where all of them are zeros. -/
theorem Reading.ofLine_digits (hdigits : IsDigits digits)
    (hzeros : digits.head? = some '0' → ∀ c ∈ digits, c = '0') : ofLine tab number column digits =
      if Decimal.ofDigits digits < Number.integerLimit then
        { tokens := [.ofDigits tab number column digits], fault := none }
      else .faulty .invalidNumber (.placed tab number column .number digits) := by
  have hsize := numeralSize_digits hdigits.1 hdigits.2 hzeros endsNumeral_nil
  have hreads : ofLine tab number column (digits ++ []) = _ := ofLine_numeral hdigits hsize
  rw [List.append_nil, ofLine_nil] at hreads
  exact hreads

/-- Zeros are a numeral of their own in front of other digits. -/
theorem Reading.ofLine_zeros (hzeros : zeros ≠ []) (hall : ∀ c ∈ zeros, c = '0')
    (hrest : IsDigits rest)
    (hhead : rest.head? ≠ some '0') : ofLine tab number column (zeros ++ rest) =
      (ofLine tab number (column + tab.span zeros) rest).cons
        (.ofDigits tab number column zeros) := by
  have hzero : IsDigits zeros := ⟨hzeros, fun c hc => hall c hc ▸ rfl⟩
  have hfirst : (zeros ++ rest).head? = some '0' := by
    obtain ⟨c, tail, rfl⟩ := List.exists_cons_of_ne_nil hzeros
    exact congrArg some (hall c List.mem_cons_self)
  have htake : (zeros ++ rest).takeWhile (· = '0') = zeros :=
    takeWhile_append_of_head (fun c hc => decide_eq_true (hall c hc)) fun c hc =>
      decide_eq_false fun heq => hhead (heq ▸ hc)
  have hrun := numeralSize_run (List.append_ne_nil_of_left_ne_nil hzeros rest)
    (List.forall_mem_append.2 ⟨hzero.2, hrest.2⟩) endsNumeral_nil
  rw [List.append_nil, if_pos hfirst, htake] at hrun
  have hlimit : Decimal.ofDigits zeros < Number.integerLimit := by
    rw [Decimal.ofDigits_zeros hall]
    exact Nat.two_pow_pos 63
  rw [ofLine_numeral hzero hrun, if_pos hlimit]

end

namespace Lexer

section

variable {name text : String} {tab : TabStop} {body : List Char} {e : Option LineEnding}
  {tokens : List Token}

/-- A lexer gives the tokens of a line without brackets, and the error that is found behind them. -/
theorem lists_line (hunbroken : ∀ c ∈ body, Text.isLineBreak c = false) (hne : body ≠ [])
    (htext : text.toList = body ++ LineEnding.ends e) {fault : Option Blame}
    (hreads : Reading.ofLine tab 1 0 body = { tokens, fault })
    (hplain : ∀ t ∈ tokens, t.isBracket = false) :
    let lexer := ofSource (.ofText name text tab)
    Lists lexer.item 0 tokens ∧ ∀ blame, fault = some blame → ∃ n,
      lexer.item tokens.length =
        .error (.located ((lexer.after n).blame blame.cause blame.token)) := by
  intro lexer
  obtain ⟨newline, hnewline, -, hreading⟩ := Reading.ofText_line hne hunbroken htext tab
  obtain ⟨more, hmore, hbrackets, hsome⟩ :
      ∃ more, Reading.ofText text tab = { tokens := tokens ++ more, fault } ∧
      (∀ t ∈ tokens ++ more, t.isBracket = false) ∧ (fault.isSome → more = []) := by
    rw [hreading, hreads]
    rcases fault with _ | blame
    · refine ⟨if e.isSome then [newline] else [], rfl,
        List.forall_mem_append.2 ⟨hplain, fun t ht => ?_⟩, by simp⟩
      obtain rfl : t = newline := by
        cases e <;> simp at ht
        exact ht
      simp [Token.isBracket, hnewline, TokenKind.opens, TokenKind.opener?]
    · exact ⟨[], by simp [Reading.append], by simpa using hplain, by simp⟩
  have hnest : nestAll? [] (tokens ++ more) = some [] := by
    rw [← nestAll?_brackets, brackets,
      List.filter_eq_nil_iff.2 fun t ht => by simp [hbrackets t ht]]
    rfl
  have hcheck : (Reading.ofText text tab).check [] = { tokens := tokens ++ more, fault } := by
    rw [hmore]
    simpa using Reading.check_of_some (r := { tokens := tokens ++ more, fault }) hnest
  obtain ⟨hfailure, _, _, -, -, htokens⟩ := gives_ofText name text tab
  rw [hcheck] at hfailure htokens
  have hlists : Lists lexer.item 0 (tokens ++ more ++ _) := htokens ▸ lexer.lists_toEnd
  refine ⟨(lists_append.1 (lists_append.1 hlists).1).1, fun blame hblame => ?_⟩
  obtain rfl := hsome (by simp [hblame])
  subst hblame
  obtain ⟨wall, -, hends⟩ := lexer.exists_endsAt
  have hlength : lexer.toEnd.tokens.length = tokens.length := by
    rw [show lexer.toEnd.tokens = _ from htokens]
    simp
  rcases hends.toEnd_cases with ⟨error, hitem, herror, hwall⟩ | ⟨mark, -, -, hnone, -⟩
  · have hsame := herror.symm.trans hfailure
    rw [hends.toEnd_eq.1] at hsame
    exact ⟨wall + 1, by rw [← hlength, hwall, hitem, Option.some.inj hsame]⟩
  · simp [show lexer.toEnd.failure = _ from hfailure] at hnone

end

end Lexer

/-! ## What is wrong with the first line -/

theorem linesOutcome_of_faults {items : Nat → Except ScriptError (Option Token)}
    {fault : Fault Blame ScriptError} (h : Rule.scriptLine.Faults items 0 fault) : ∀ᶠ fuel in atTop,
      (linesOutcome (evaluate scriptGrammar items fuel .scriptLine) fuel .empty 0).answer =
        .error fault := by
  filter_upwards [h, eventually_gt_atTop 0] with fuel h hfuel
  obtain ⟨rounds, rfl⟩ := Nat.exists_eq_succ_of_ne_zero hfuel.ne'
  rw [linesOutcome]
  exact answer_andThen_error h

/-- A source is read as the lines come to with some amount of fuel that is enough. -/
theorem Script.exists_conclusion {source : Source} {fault : Fault Blame ScriptError}
    (h : Rule.scriptLine.Faults (Lexer.ofSource source).item 0 fault) :
      ∃ o : Outcome Blame ScriptError Script,
      o.answer = .error fault ∧ Script.ofSource source = (Lexer.ofSource source).conclusion o := by
  obtain ⟨fuel, hanswer, hfuel⟩ := ((linesOutcome_of_faults h).and
    (eventually_ge_atTop (Parser.fuel (.ofLexer (.ofSource source))))).exists
  exact ⟨_, hanswer, ofSource_eq_conclusion hfuel⟩

/-- An error of the lexer in the first line is the one of the script. -/
theorem Script.ofSource_of_item {source : Source} {e : ScriptError}
    (h : Rule.scriptLine.Faults (Lexer.ofSource source).item 0 (.item e)) :
    Script.ofSource source = .error (.fatal e) := by
  obtain ⟨o, hanswer, hread⟩ := Script.exists_conclusion h
  rw [hread, Lexer.conclusion, hanswer]

/-- What the grammar blames in the first line is blamed for the script. -/
theorem Script.ofSource_of_complaint {source : Source} {blame : Blame}
    (h : Rule.scriptLine.Faults (Lexer.ofSource source).item 0 (.complaint blame)) : ∃ n,
      Script.ofSource source = .error (.fatal (.located
        (((Lexer.ofSource source).after n).blame blame.cause blame.token))) := by
  obtain ⟨o, hanswer, hread⟩ := Script.exists_conclusion h
  exact ⟨o.reach, by rw [hread, Lexer.conclusion, hanswer]⟩

section

variable {name text : String} {tab : TabStop} {n : Nat} {cause : Cause} {t : Token}

/-- A token that stands in a text is shown in its line. -/
theorem Lexer.Stands.exists_line (h : ((ofSource (.ofText name text tab)).after n).Stands t) :
    ∃ line, (Text.lines text.toList)[t.line - 1]? = some line ∧
      ((ofSource (.ofText name text tab)).after n).sourceLine? t.line =
        some (String.ofList (tab.expand (Text.body line))) := by
  obtain ⟨line, hget, -⟩ := h.spans
  have hsource := sourceLine_eq h.line_pos hget (isLine_texts (List.mem_of_getElem? hget))
  rw [tab_after] at hsource
  obtain ⟨more, hlines, -⟩ := texts_after name text tab n
  rw [hlines, List.getElem?_append_left (List.getElem?_eq_some_iff.1 hget).1]
  exact ⟨line, hget, hsource⟩

/-- What is blamed is shown in its line, if it is not that no rule fits there. -/
theorem Script.blame_eq {lexer : Lexer} (hlexer : lexer = .ofSource (.ofText name text tab))
    (h : Script.ofSource (.ofText name text tab) =
      .error (.fatal (.located ((lexer.after n).blame cause t))))
    (hcause : cause ≠ .unrecognized) : ∃ line, (Text.lines text.toList)[t.line - 1]? = some line ∧
      (lexer.after n).blame cause t =
        { cause, source := name, line := t.line, startColumn := t.startColumn,
          endColumn := t.stopColumn,
          text := t.text, context := some (String.ofList (tab.expand (Text.body line))) } := by
  subst hlexer
  set lexer := Lexer.ofSource (.ofText name text tab)
  have hregular : lexer.Regular := Lexer.regular_ofSource name text tab
  have haligned : lexer.Aligned := Lexer.aligned_ofSource _
  obtain ⟨m, t', hstands, hline, hcontext⟩ : ∃ m t', (lexer.after m).Stands t' ∧ t'.line = t.line ∧
      ((lexer.after n).blame cause t).context = (lexer.after m).sourceLine? t'.line := by
    rcases Script.ofSource_blames h with ⟨i, he⟩ |
      ⟨i, t', ht', hmark, ⟨hnewline, m, cause', hlt, hd⟩ | ⟨-, hd⟩⟩
    · obtain ⟨cause', t', hd, hstands⟩ := haligned.item_error hregular he
      have hd := ScriptError.located.inj hd
      exact ⟨_, t', hstands, (congrArg Diagnostic.line hd).symm, congrArg Diagnostic.context hd⟩
    · exact ⟨m, t', (haligned.item_stands hregular ht' hnewline hmark).onward (hregular.onward hlt),
        (congrArg Diagnostic.line hd).symm, congrArg Diagnostic.context hd⟩
    · exact absurd (congrArg Diagnostic.cause hd) hcause
  obtain ⟨line, hget, hsource⟩ := hstands.exists_line
  rw [hline] at hget
  refine ⟨line, hget, ?_⟩
  have hname : (lexer.after n).source = name := (hregular.onward (Nat.zero_le n)).source_eq
  rw [Lexer.blame, Diagnostic.mk.injEq]
  exact ⟨rfl, hname, rfl, rfl, rfl, rfl, hcontext.trans hsource⟩

end

/-! ## The line of the digits -/

/-- The error that blames some of the digits behind `m1`, with others before and behind them. -/
def Diagnostic.inDigits (name : String) (cause : Cause)
    (before fault after : List Char) : Diagnostic :=
  { cause, source := name, line := 1, startColumn := .ofNat (before.length + 4),
    endColumn := .ofNat ((before ++ fault).length + 4), text := String.ofList fault,
    context := some (String.ofList ("m1 ".toList ++ (before ++ fault ++ after))) }

section

variable {name text : String} {tab : TabStop} {digits : List Char} {e : Option LineEnding}

theorem Reading.ofLine_m1 (tab : TabStop) (text : List Char) : ∃ first : Token, first.kind = .name ∧
    ofLine tab 1 0 ("m1 ".toList ++ text) = (ofLine tab 1 3 text).cons first := by
  have hrest : EndsWord (' ' :: text) := endsWord_cons rfl _
  obtain ⟨first, hfirst, hreads⟩ := (Symbol.scans_name isWord_m1 hrest).ofLine tab 1 0
  have hblank : Lexer.isBlank ' ' = true := rfl
  refine ⟨first, congrArg Symbol.kind hfirst, ?_⟩
  rw [show ofLine tab 1 0 ("m1 ".toList ++ text) = _ from hreads, ofLine, if_pos hblank]
  rfl

theorem unbroken_m1 (hdigits : IsDigits digits) :
    ∀ c ∈ "m1 ".toList ++ digits, Text.isLineBreak c = false := by
  intro c hc
  refine Text.isLineBreak_eq_false.2 ⟨?_, ?_⟩ <;> rintro rfl <;>
    exact absurd hc (by simpa using hdigits.notMem rfl)

variable (hdigits : IsDigits digits)
  (htext : text.toList = "m1 ".toList ++ digits ++ LineEnding.ends e)

include hdigits htext

/-- The tokens of the line, and the error that is found behind them. -/
theorem Lexer.items_m1 {tokens : List Token} {fault : Option Blame}
    (hreads : Reading.ofLine tab 1 3 digits = { tokens, fault })
    (hplain : ∀ t ∈ tokens, t.kind = .number) :
    let lexer := ofSource (.ofText name text tab)
    ∃ first, lexer.item 0 = .ok (some first) ∧ first.kind = .name ∧ Lists lexer.item 1 tokens ∧
      ∀ blame, fault = some blame → ∃ n,
        lexer.item (tokens.length + 1) =
          .error (.located ((lexer.after n).blame blame.cause blame.token)) := by
  intro lexer
  obtain ⟨first, hname, hline⟩ := Reading.ofLine_m1 tab digits
  rw [hreads] at hline
  have hbrackets : ∀ t ∈ first :: tokens, t.isBracket = false := by
    intro t ht
    rcases List.mem_cons.1 ht with rfl | ht
    · simp [Token.isBracket, hname, TokenKind.opens, TokenKind.opener?]
    · simp [Token.isBracket, hplain t ht, TokenKind.opens, TokenKind.opener?]
  obtain ⟨⟨hfirst, hlists⟩, herror⟩ :=
    Lexer.lists_line (unbroken_m1 hdigits) (by simp) htext hline hbrackets
  exact ⟨first, hfirst, hname, hlists, herror⟩

/-- Digits that are blamed are shown in their line. -/
theorem Script.ofSource_inDigits {cause : Cause} {before fault after : List Char} {n : Nat}
    {literal : Literal} (hread : Script.ofSource (.ofText name text tab) =
      .error (.fatal (.located (((Lexer.ofSource (.ofText name text tab)).after n).blame cause
        ((Token.placed tab 1 (3 + tab.span before) .number fault).withLiteral literal)))))
    (hcause : cause ≠ .unrecognized) (hsplit : digits = before ++ fault ++ after) :
    Script.ofSource (.ofText name text tab) =
      .error (.fatal (.located (.inDigits name cause before fault after))) := by
  obtain ⟨line, hget, hblame⟩ := Script.blame_eq rfl hread hcause
  have htab : '\t' ∉ digits := hdigits.notMem rfl
  have hall : '\t' ∉ "m1 ".toList ++ digits := by simpa using htab
  obtain ⟨hbefore, hfault, -⟩ : '\t' ∉ before ∧ '\t' ∉ fault ∧ '\t' ∉ after := by
    simpa [hsplit] using htab
  have hspan := tab.span_of_notMem hbefore
  have hspan' := tab.span_of_notMem hfault
  have hline : (Text.lines text.toList)[0]? = some line := hget
  rw [htext, Text.lines_ends (by simp) (unbroken_m1 hdigits)] at hline
  obtain rfl := Option.some.inj hline
  rw [hread, hblame, Text.body_ends (unbroken_m1 hdigits), tab.expand_of_notMem hall, hsplit]
  refine congrArg (fun d => Except.error (Halt.fatal (ScriptError.located d))) ?_
  have hstart : 3 + tab.span before + 1 = UInt64.ofNat (before.length + 4) := by
    rw [hspan, UInt64.ofNat_add, UInt64.add_comm 3, UInt64.add_assoc]
    rfl
  have hend : 3 + tab.span before + tab.span fault + 1 =
      UInt64.ofNat ((before ++ fault).length + 4) := by
    rw [hspan, hspan', List.length_append, UInt64.ofNat_add, UInt64.ofNat_add, UInt64.add_assoc 3,
      UInt64.add_comm 3, UInt64.add_assoc]
    rfl
  rw [Diagnostic.inDigits, Diagnostic.mk.injEq]
  exact ⟨rfl, rfl, rfl, hstart, hend, rfl, rfl⟩

end

/-- A number is read as an expression of its own. -/
theorem Value.readsFrom_number {symbol : Symbol} {value : Number} (hkind : symbol.kind = .number)
    (hliteral : symbol.literal = .number value) :
    (Value.expr (.number value)).ReadsFrom [symbol] := by
  intro items pos hshows hends
  obtain ⟨⟨t, ht, rfl⟩, -⟩ := hshows
  have hvalueEnds : ValueEnds items (pos + 1) := hends.valueEnds
  obtain ⟨next, hnext, hafter⟩ := id hvalueEnds
  have hother : next.kind ≠ .number := fun heq => by simp [heq] at hafter
  have hvalue : t.number? = some value := by rw [Token.number?, show t.literal = _ from hliteral]
  have hderives : DerivesExpr .sum [t, next] [next] (.number value) :=
    .ofProduct (.ofSigned (.ofPower (.ofOperand (.number hkind hother hvalue))))
  obtain ⟨stop, -, hlength, -, hreads⟩ := hderives.reads ⟨ht, hnext, trivial⟩
  obtain rfl : stop = pos + [t.symbol].length := by simpa using hlength
  have hkind : t.kind = .number := hkind
  exact matches_value_expr (matches_action_none ht (by simp [hkind]) (by simp [hkind]))
    (hreads.matches_sum hvalueEnds.sumEnds)

section

variable {name text : String} {tab : TabStop} {digits : List Char} {e : Option LineEnding}

/-- A line with the digits of an integer is read as a command with this integer. -/
theorem Script.ofSource_integer {directive : String} (hdirective : IsWord directive.toList)
    (count : RepeatCount)
    (htext : text.toList = directive.toList ++ ' ' :: count.digits ++ LineEnding.ends e) :
    Script.ofSource (.ofText name text tab) =
      .ok { commands := #[{ directive,
                            parameters := { args := [.expr (.number (.integer count.value))],
                                            keywords := .empty } }] } := by
  have hcount : Cut count.digits [count.symbol] := by
    simpa [RepeatCount.symbol] using Cut.nil.cons (count.scans endsNumeral_nil)
  have hcut : Cut (directive.toList ++ ' ' :: count.digits) [.name directive, count.symbol] :=
    (hcount.blank rfl).cons (Symbol.scans_name hdirective (endsWord_cons rfl _))
  have hnested : Nested [.name directive, count.symbol] :=
    (Nested.of_not_isBracket ⟨rfl, rfl⟩).append (.of_not_isBracket ⟨rfl, rfl⟩)
  obtain ⟨⟨⟨t, hitem, ht⟩, hshows⟩, ⟨newline, hnewline, hkind⟩, hmark⟩ :=
    hcut.shows hnested (by simp) htext name tab
  obtain rfl : t.text = directive := congrArg Symbol.text ht
  have hparams := (ReadsParams.values (.one (Value.readsFrom_number rfl rfl))).matches_params hshows
    ⟨newline, hnewline, by simp [hkind]⟩ (.nothing ⟨newline, hnewline, by simp [hkind]⟩)
  exact Script.ofSource_command hitem (congrArg Symbol.kind ht) hparams
    (.newline hnewline hkind) hmark

variable (hdigits : IsDigits digits)
  (htext : text.toList = "m1 ".toList ++ digits ++ LineEnding.ends e)

include hdigits htext

/-- Digits that are one number are all to blame if the number is too large. -/
theorem Script.ofSource_large (hzeros : digits.head? = some '0' → ∀ c ∈ digits, c = '0')
    (hlarge : ¬Decimal.ofDigits digits < Number.integerLimit) :
    Script.ofSource (.ofText name text tab) =
      .error (.fatal (.located (.inDigits name .invalidNumber [] digits []))) := by
  have hreads : Reading.ofLine tab 1 3 digits = _ := Reading.ofLine_digits hdigits hzeros
  rw [if_neg hlarge] at hreads
  obtain ⟨first, hfirst, hname, -, herror⟩ := Lexer.items_m1 hdigits htext hreads (by simp)
  obtain ⟨n, herror⟩ := herror _ rfl
  have hread := Script.ofSource_of_item (faults_scriptLine hfirst hname (faults_value herror))
  have hsplit : digits = [] ++ digits ++ [] := by simp
  exact Script.ofSource_inDigits hdigits htext hread (by simp) hsplit

omit hdigits in
/-- Zeros in front of digits that are one number are to blame, unless the number is too large. -/
theorem Script.ofSource_leadingZeros {zeros rest : List Char} (hsplit : digits = zeros ++ rest)
    (hzeros : zeros ≠ [])
    (hall : ∀ c ∈ zeros, c = '0') (hrest : IsDigits rest) (hhead : rest.head? ≠ some '0') :
    Script.ofSource (.ofText name text tab) = .error (.fatal (.located
      (if Decimal.ofDigits rest < Number.integerLimit then
        .inDigits name .leadingZeros [] zeros rest
      else .inDigits name .invalidNumber zeros rest []))) := by
  have hdigits : IsDigits digits :=
    hsplit ▸ ⟨by simp [hzeros], List.forall_mem_append.2 ⟨fun c hc => hall c hc ▸ rfl, hrest.2⟩⟩
  have hreads : Reading.ofLine tab 1 3 digits = _ :=
    hsplit ▸ Reading.ofLine_zeros hzeros hall hrest hhead
  rw [Reading.ofLine_digits hrest fun h => absurd h hhead] at hreads
  by_cases hlt : Decimal.ofDigits rest < Number.integerLimit
  · rw [if_pos hlt] at hreads ⊢
    obtain ⟨first, hitem, hname, ⟨hnumber, hsecond, -⟩, -⟩ :=
      Lexer.items_m1 hdigits htext hreads (by simp)
    obtain ⟨n, hread⟩ := Script.ofSource_of_complaint (faults_scriptLine hitem hname
      (faults_value_adjoining hnumber rfl hsecond rfl (Token.adjoins_ofDigits tab 1 3 zeros rest)))
    exact Script.ofSource_inDigits hdigits htext hread (by simp) hsplit
  · rw [if_neg hlt] at hreads ⊢
    obtain ⟨first, hitem, hname, ⟨hnumber, -⟩, herror⟩ :=
      Lexer.items_m1 hdigits htext hreads (List.forall_mem_singleton.2 rfl)
    obtain ⟨n, herror⟩ := herror _ rfl
    have hread :=
      Script.ofSource_of_item
        (faults_scriptLine hitem hname (faults_value_number hnumber rfl herror))
    exact Script.ofSource_inDigits hdigits htext hread (by simp) (by simpa using hsplit)

end

/-- The value of digits, the last of which counts the ones. -/
def digitsValue (digits : List Char) : Nat :=
  Nat.ofDigits 10 (digits.reverse.map fun c => c.toNat - '0'.toNat)

theorem digitsValue_eq (digits : List Char) : Decimal.ofDigits digits = digitsValue digits :=
  ofDigits_eq digits

/-- A line of `m1` and digits has a single argument, which has all the digits for its value, or it
is an error : an integer that is too large is to blame as a whole, and otherwise the zeros in front
of others are. -/
theorem Script.ofSource_digits {name : String} {tab : TabStop} {digits : List Char}
    {e : Option LineEnding} {source : Source} (hdigits : IsDigits digits)
    (hsource : source.Holds name ("m1 " ++ String.ofList (digits ++ LineEnding.ends e)) tab) :
    ((∀ c ∈ digits, c = '0') ∨ digits.head? ≠ some '0' → Script.ofSource source =
      if digitsValue digits ≤ 2 ^ 63 - 1 then
        .ok { commands := #[
          { directive := "m1",
            parameters := { args := [.expr (.number (.integer (digitsValue digits)))],
                            keywords := .empty } }] }
      else .error (.fatal (.located (.inDigits name .invalidNumber [] digits [])))) ∧
    ∀ zeros rest, digits = zeros ++ rest → zeros ≠ [] → (∀ c ∈ zeros, c = '0') → rest ≠ [] →
      rest.head? ≠ some '0' → Script.ofSource source = .error (.fatal (.located
        (if digitsValue rest ≤ 2 ^ 63 - 1 then .inDigits name .leadingZeros [] zeros rest
        else .inDigits name .invalidNumber zeros rest []))) := by
  have hlimit : ∀ n, n ≤ 2 ^ 63 - 1 ↔ n < Number.integerLimit := fun n => by
    change _ ↔ n < 2 ^ 63
    omega
  have htext : ("m1 " ++ String.ofList (digits ++ LineEnding.ends e)).toList =
      "m1 ".toList ++ digits ++ LineEnding.ends e := by simp
  simp only [← digitsValue_eq, hlimit, hsource.eq_ofText]
  refine ⟨fun hplain => ?_, fun zeros rest hsplit hzeros hall hrest hhead => ?_⟩
  · have hzeros : digits.head? = some '0' → ∀ c ∈ digits, c = '0' := fun hhead =>
      hplain.resolve_right fun hne => hne hhead
    by_cases hlt : Decimal.ofDigits digits < Number.integerLimit
    · rw [if_pos hlt]
      exact Script.ofSource_integer isWord_m1 ⟨digits, hdigits.1, hdigits.2, hzeros, hlt⟩ htext
    · rw [if_neg hlt]
      exact Script.ofSource_large hdigits htext hzeros hlt
  · have hdigits' : IsDigits rest :=
      ⟨hrest, fun c hc => hdigits.2 c (hsplit ▸ List.mem_append_right zeros hc)⟩
    exact Script.ofSource_leadingZeros htext hsplit hzeros hall hdigits' hhead

/-- The largest integer, and an integer that is larger by one behind two zeros. -/
theorem Script.ofSource_digits_limit :
    let large := "9223372036854775808".toList
    Script.ofText "" "m1 9223372036854775807" =
        .ok { commands := #[
          { directive := "m1",
            parameters := { args := [.expr (.number (.integer 9223372036854775807))],
                            keywords := .empty } }] } ∧
      Script.ofText "" "m1 009223372036854775808\r\n" =
        .error (.fatal (.located (.inDigits "" .invalidNumber ['0', '0'] large []))) := by
  intro large
  have hdigits : IsDigits "9223372036854775807".toList := ⟨by decide, by simp⟩
  have hlarge : IsDigits ('0' :: '0' :: large) := ⟨by decide, by simp [large]⟩
  have htext : "m1 9223372036854775807" =
      "m1 " ++ String.ofList ("9223372036854775807".toList ++ LineEnding.ends none) := by decide
  have htext' : "m1 009223372036854775808\r\n" =
      "m1 " ++ String.ofList ('0' :: '0' :: large ++ LineEnding.ends (some .both)) := by decide
  obtain ⟨hplain, -⟩ :=
    Script.ofSource_digits hdigits (.inl (congrArg (Source.ofText "" · default) htext))
  obtain ⟨-, hzeros⟩ :=
    Script.ofSource_digits hlarge (.inl (congrArg (Source.ofText "" · default) htext'))
  have hvalue : digitsValue "9223372036854775807".toList = 9223372036854775807 := by decide +kernel
  have hvalue' : digitsValue large = 9223372036854775808 := by decide +kernel
  rw [hvalue, if_pos (by decide)] at hplain
  have hsecond :=
    hzeros ['0', '0'] large rfl (by simp) (by simp) (by simp [large]) (by simp [large])
  rw [hvalue', if_neg (by decide)] at hsecond
  exact ⟨hplain (.inr (by decide)), hsecond⟩

end OpticScript
