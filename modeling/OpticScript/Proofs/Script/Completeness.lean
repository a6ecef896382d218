import OpticScript.Proofs.Grammar.Completeness
import OpticScript.Proofs.Lexer.Spelling
import OpticScript.Proofs.Script.Derivation
import OpticScript.Proofs.Script.Spelled

/-!
# Scripts that are derived are read

The lines that are derived are read one by one up to the end marker, or up to the first line with
a value that is cut short (`DerivesLines.linesMatch`). A script is made of them as long as a
surface line has a command before it. So a source whose tokens are derived from the start of the
grammar is read as a script if and only if no value of it is cut short
(`Script.ofSource_succeeds_iff`).
-/

namespace OpticScript

section

variable {items : Nat → Except ScriptError (Option Token)} {pos : Nat} {tokens rest : List Token}
  {script : Script} {form : LineForm} {forms : List LineForm}

theorem Script.exists_addSurface (h : script.commands.toList ≠ []) (surface : Parameters) :
    ∃ script', script.addSurface? surface = some script' ∧ script'.commands.toList ≠ [] := by
  obtain ⟨commands, c, hcommands⟩ := (List.eq_nil_or_concat script.commands.toList).resolve_left h
  have hback : script.commands.back? = some c := by
    rw [← Array.getLast?_toList, hcommands]
    simp
  obtain ⟨script', hadd⟩ : ∃ script', script.addSurface? surface = some script' := by
    rw [Script.addSurface?, hback]
    exact ⟨_, rfl⟩
  obtain ⟨commands', c', -, hcommands'⟩ := commands_addSurface hadd
  exact ⟨script', hadd, by simp [hcommands']⟩

/-- A line is added to the script, unless it is a surface line with no command before it. -/
theorem LineForm.IsSortOf.addLine {line : Line} (h : form.IsSortOf line)
    (hattached : Attached script.commands.toList (form :: forms)) :
    ∃ script', Parser.addLine script line = .ok script' ∧
      Attached script'.commands.toList forms := by
  cases h with
  | blank => exact ⟨script, rfl, hattached⟩
  | command => exact ⟨_, rfl, fun hnil => by simp [Script.push] at hnil⟩
  | @surface args pairs p marker =>
    have hne : script.commands.toList ≠ [] := fun hnil => by
      simpa [surfacesOf] using hattached hnil
    obtain ⟨script', hadd, hne'⟩ := script.exists_addSurface hne p
    exact ⟨script', by simp only [Parser.addLine, hadd], fun hnil => absurd hnil hne'⟩

/-- Lines that are derived are read, up to the end marker if no value of them is cut short. -/
theorem DerivesLines.linesMatch (h : DerivesLines tokens rest forms)
    (hlists : Lists items pos tokens)
    {mark : Token} (hrest : rest = [mark]) (hmark : mark.kind = .endMarker)
    (hattached : Attached script.commands.toList forms) :
    ∃ result stop, LinesMatch items script pos result stop ∧
      Sees items stop fun kind => kind = .endMarker ↔ NoneCutShort true tokens := by
  induction h generalizing pos script with
  | nil rest =>
    obtain rfl := hrest
    have hwhole : NoneCutShort true [mark] := ⟨fun _ => not_cutShort_nil, trivial⟩
    exact ⟨script, pos, .endMarker script ⟨mark, hlists.1, hmark⟩, mark, hlists.1,
      iff_of_true hmark hwhole⟩
  | cons head tail ih =>
    rcases head.matches_line hlists with ⟨line, mid, hsort, hline, hmid, hiff⟩ |
      ⟨hnone, hsees, hnot⟩
    · obtain ⟨script', hadd, hattached'⟩ := hsort.addLine hattached
      obtain ⟨result, stop, hmatch, hend⟩ := ih hmid hrest hattached'
      exact ⟨result, stop, .cons hline hadd hmatch, hend.imp fun _ hkind => hkind.trans hiff.symm⟩
    · exact ⟨script, pos, .nil script hnone, hsees.imp fun _ hkind => iff_of_false hkind hnot⟩

/-- In the tokens of a script that is read no value is cut short. -/
theorem DerivesScript.noneCutShort {source : Source}
    (h : DerivesScript (Lexer.ofSource source).toEnd.tokens forms) (hfirst : surfacesOf forms = [])
    (hscript : Script.ofSource source = .ok script) :
    NoneCutShort true (Lexer.ofSource source).toEnd.tokens := by
  cases h with
  | lines h hmark =>
    obtain ⟨result, stop, hmatch, mark, hitem, hend⟩ :=
      h.linesMatch (Lexer.lists_toEnd _) rfl hmark fun _ => hfirst
    obtain ⟨-, mark', hitem', hmark'⟩ := hmatch.ofSource_eq_ok_iff.1 hscript
    obtain rfl : mark = mark' := by simpa [hitem] using hitem'
    exact hend.1 hmark'

/-- The tokens of a script that is read are derived with no value cut short, and the commands are
those of the derivation. -/
theorem Script.exists_derives {source : Source} (h : Script.ofSource source = .ok script) :
    (Lexer.ofSource source).toEnd.failure = none ∧
      ∃ forms, DerivesScript (Lexer.ofSource source).toEnd.tokens forms ∧ surfacesOf forms = [] ∧
        script.commands.toList = commandsOf forms ∧
        NoneCutShort true (Lexer.ofSource source).toEnd.tokens := by
  obtain ⟨wall, hwall, hends⟩ := (Lexer.ofSource source).exists_endsAt
  have hok := h
  rw [Script.ofSource_eq_verdict, Lexer.verdict_eq_ok_iff] at hok
  obtain ⟨hfailure, forms, hderives, hfirst, hcommands⟩ :=
    scriptOutcome_derives hends (fuelFor_le_fuel_ofLexer hwall) hok
  exact ⟨hfailure, forms, hderives, hfirst, hcommands, hderives.noneCutShort hfirst h⟩

end

/-- Tokens that are derived from the start of the grammar, with a command in its first line that is
not blank, are read as a script if and only if no value that begins in them is cut short : none
begins with a word of motion codes, in parentheses or not, and goes on with an operator. -/
theorem Script.ofSource_succeeds_iff (source : Source) {forms : List LineForm} :
    let tokens := (Lexer.ofSource source).toEnd.tokens
    DerivesScript tokens forms → surfacesOf forms = [] →
      ((∃ script, Script.ofSource source = .ok script) ↔ NoneCutShort true tokens) := by
  intro tokens h hfirst
  cases h with
  | lines h hmark =>
    have hattached : Attached Script.empty.commands.toList forms := fun _ => hfirst
    obtain ⟨result, stop, hmatch, mark, hitem, hend⟩ :=
      h.linesMatch (Lexer.lists_toEnd _) rfl hmark hattached
    constructor
    · rintro ⟨script, hscript⟩
      obtain ⟨-, mark', hitem', hmark'⟩ := hmatch.ofSource_eq_ok_iff.1 hscript
      obtain rfl : mark = mark' := by simpa [hitem] using hitem'
      exact hend.1 hmark'
    · exact fun hwhole => ⟨result, hmatch.ofSource_eq_ok_iff.2 ⟨rfl, mark, hitem, hend.2 hwhole⟩⟩

/-- A value of motion codes, and a sum that begins with them inside of its parentheses. -/
theorem Script.ofSource_succeeds_parens :
    let source := Source.ofText "" "m1 c, (c+1)"
    let tokens := (Lexer.ofSource source).toEnd.tokens
    ∃ forms, DerivesScript tokens forms ∧ surfacesOf forms = [] ∧ NoneCutShort true tokens ∧
      ∃ script, Script.ofSource source = .ok script := by
  intro source tokens
  have htokens : (Lexer.ofSource (.ofText "" "m1 c, (c+1)")).toEnd.tokens =
      [.ofText .name "m1" 1 1 3, .ofText .name "c" 1 4 5, .ofText .comma "," 1 5 6,
        .ofText .leftParen "(" 1 7 8, .ofText .name "c" 1 8 9, .ofText .plus "+" 1 9 10,
        (Token.ofText .number "1" 1 10 11).withLiteral (.number (.integer 1)),
        .ofText .rightParen ")" 1 11 12, .synthetic .newline 1 12, .synthetic .endMarker 2 1] := by
    decide +kernel
  have hderives : DerivesScript tokens [.command "m1"
      [.action "c", .expr (.binary .add (.name "c") (.number (.integer 1)))] []] := by
    have hcodes : IsMotionWord "c" := by decide
    rw [show tokens = _ from htokens]
    refine .lines
      (.cons (.command (.command rfl (.values (.values (.value (.action (.codes rfl hcodes)) ?_)
      (.more rfl (.value (.expr (.ofProduct (.ofSigned (.ofPower (.ofOperand (.parens rfl
        (.sum (.ofProduct (.ofSigned (.ofPower (.ofOperand (.name rfl))))) .plus
          (.ofSigned (.ofPower (.ofOperand (.number rfl ?_ rfl))))) rfl)))))) ?_)
      (.nothing _))) (.nothing _))) (.nothing _) rfl) (.nil _)) rfl
    all_goals decide
  have hwhole : NoneCutShort true tokens := by
    rw [show tokens = _ from htokens]
    decide
  exact ⟨_, hderives, rfl, hwhole, (Script.ofSource_succeeds_iff source hderives rfl).2 hwhole⟩

/-- The tokens of a sum that begins with motion codes are derived, and so are those of a group of
motion codes with a count. Neither the sum is read nor the group if its count is not an integer. -/
theorem Script.ofSource_fails_derived :
    let scan := fun text => (Lexer.ofSource (.ofText "" text)).toEnd
    let fails := fun text => ¬∃ script, Script.ofSource (.ofText "" text) = .ok script
    ((scan "m1 c+1").failure = none ∧
      (∃ forms, DerivesScript (scan "m1 c+1").tokens forms ∧ surfacesOf forms = []) ∧
      fails "m1 c+1") ∧
    (scan "m1 \x7bc\x7dinf").failure = none ∧
      (scan "m1 \x7bc\x7dinf").tokens.map Token.kind =
        (scan "m1 \x7bc\x7d2").tokens.map Token.kind ∧
      (∃ forms, DerivesScript (scan "m1 \x7bc\x7d2").tokens forms ∧ surfacesOf forms = []) ∧
      fails "m1 \x7bc\x7dinf" := by
  have hsum : (Lexer.ofSource (.ofText "" "m1 c+1")).toEnd.failure = none ∧
      (Lexer.ofSource (.ofText "" "m1 c+1")).toEnd.tokens =
        [.ofText .name "m1" 1 1 3, .ofText .name "c" 1 4 5, .ofText .plus "+" 1 5 6,
          (Token.ofText .number "1" 1 6 7).withLiteral (.number (.integer 1)),
          .synthetic .newline 1 7, .synthetic .endMarker 2 1] := by
    constructor <;> decide +kernel
  have hgroup : (Lexer.ofSource (.ofText "" "m1 \x7bc\x7d2")).toEnd.tokens =
      [.ofText .name "m1" 1 1 3, .ofText .leftBrace "\x7b" 1 4 5, .ofText .name "c" 1 5 6,
        .ofText .rightBrace "\x7d" 1 6 7,
        (Token.ofText .number "2" 1 7 8).withLiteral (.number (.integer 2)),
        .synthetic .newline 1 8, .synthetic .endMarker 2 1] := by
    decide +kernel
  have hpart : (Lexer.ofSource (.ofText "" "m1 \x7bc\x7dinf")).toEnd.failure = none ∧
      (Lexer.ofSource (.ofText "" "m1 \x7bc\x7dinf")).toEnd.tokens.map Token.kind =
        [.name, .leftBrace, .name, .rightBrace, .number, .newline, .endMarker] := by
    constructor <;> decide +kernel
  have hderives : DerivesScript (Lexer.ofSource (.ofText "" "m1 c+1")).toEnd.tokens
      [.command "m1" [.expr (.binary .add (.name "c") (.number (.integer 1)))] []] := by
    rw [hsum.2]
    refine .lines (.cons (.command (.command rfl (.values (.values (.value (.expr
      (.sum (.ofProduct (.ofSigned (.ofPower (.ofOperand (.name rfl))))) .plus
        (.ofSigned (.ofPower (.ofOperand (.number rfl ?_ rfl)))))) ?_)
      (.nothing _)) (.nothing _))) (.nothing _) rfl) (.nil _)) rfl
    all_goals decide
  have hderives' : ∃ codes, DerivesScript (Lexer.ofSource (.ofText "" "m1 \x7bc\x7d2")).toEnd.tokens
      [.command "m1" [.action codes] []] := by
    have hcodes : IsMotionWord "c" := by decide
    rw [hgroup]
    refine ⟨_, .lines (.cons (.command (.command rfl (.values (.values (.value (.action
      (.braces rfl (.codes rfl hcodes) rfl (.count rfl rfl))) ?_)
      (.nothing _)) (.nothing _))) (.nothing _) rfl) (.nil _)) rfl⟩
    decide
  have hfails : ∀ {text}, (Script.ofSource (.ofText "" text)).isOk = false →
      ¬∃ script, Script.ofSource (.ofText "" text) = .ok script := by
    rintro text hfails ⟨script, hscript⟩
    simp [hscript, Except.isOk, Except.toBool] at hfails
  have hsum_fails : (Script.ofSource (.ofText "" "m1 c+1")).isOk = false := by
    rw [Script.ofSource_eq_verdict]
    decide +kernel
  have hpart_fails : (Script.ofSource (.ofText "" "m1 \x7bc\x7dinf")).isOk = false := by
    rw [Script.ofSource_eq_verdict]
    decide +kernel
  obtain ⟨codes, hderives'⟩ := hderives'
  exact ⟨⟨hsum.1, ⟨_, hderives, rfl⟩, hfails hsum_fails⟩, hpart.1,
    hpart.2.trans (congrArg (List.map Token.kind) hgroup).symm, ⟨_, hderives', rfl⟩,
    hfails hpart_fails⟩

end OpticScript
