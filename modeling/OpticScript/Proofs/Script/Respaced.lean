import OpticScript.Proofs.Lexer.Respaced
import OpticScript.Proofs.Script.Columns
import OpticScript.Proofs.Script.Endings
import OpticScript.Proofs.Script.LineByLine

/-!
# Scripts and blanks

How many blanks there are between the tokens of a text, which ones they are, and how wide a tab
is make no difference to what is read from it (`Script.ofSource_respaced`). The tokens are the
same but for their columns, and a script depends on nothing but what they are and what they are
written like (`Script.ofSource_eq_of_symbols`).

The columns are asked for once only, where two numbers come one after the other and a script
cannot be read anyway : there they tell whether there is a blank between the numbers, and that is so
in both texts or in neither if there is room for the columns (`Token.indistinct_respaced`). Tabs may
be so wide that there is none, and then there may be no error either but a panic
(`Script.ofSource_respaced_panic`).
-/

namespace OpticScript

/-- Tokens that are the same but for the columns, and that the lexers give after as many others. -/
def Token.Counterpart (lexer lexer' : Lexer) (t t' : Token) : Prop :=
  t.Respaced t' ∧ ∃ n, lexer.item n = .ok (some t) ∧ lexer'.item n = .ok (some t')

section

variable {room : Prop} {Past : Token → Token → Prop} {lexer lexer' : Lexer}

theorem Token.Respaced.symbol_eq {t t' : Token} (h : t.Respaced t') : t'.symbol = t.symbol := by
  rw [symbol, symbol, h.kind_eq, h.text_eq, h.literal_eq]

theorem Token.Respaced.map_symbol {tokens tokens' : List Token}
    (h : List.Forall₂ Token.Respaced tokens tokens') :
    tokens'.map Token.symbol = tokens.map Token.symbol := by
  induction h with
  | nil => rfl
  | cons ht _ ih => rw [List.map_cons, List.map_cons, ht.symbol_eq, ih]

/-- A number does not begin where it stops itself. -/
theorem Token.Passed.adjoins_self {t t' : Token} (h : t.Passed t' lexer lexer') :
    t'.adjoins t' = t.adjoins t := by
  rw [Bool.eq_iff_iff, adjoins_iff, adjoins_iff]
  have := h.wide
  omega

/-- The tokens and the errors are the same but for the columns, be there room for them or not. -/
theorem Lexer.Respaced.matched (h : lexer.Respaced room Past lexer') (hregular : lexer.Regular) :
    lexer.Matched (Token.Counterpart lexer lexer') ScriptError.Respaced lexer' where
  kind_eq ht := ht.1.kind_eq
  items n := by
    rcases h.item hregular n with ⟨t, t', ht, ht', hrespaced⟩ | ⟨e, e', he, he', hrespaced⟩
    · rw [ht, ht']
      exact .some ⟨hrespaced, n, ht, ht'⟩
    · rw [he, he']
      exact hrespaced

/-- The grammar does not see blanks if there is room for the columns. -/
theorem Token.indistinct_respaced (h : lexer.Respaced room Past lexer') (hroom : room)
    (hregular : lexer.Regular) : Token.Indistinct (Token.Counterpart lexer lexer') where
  kind_eq ht := ht.1.kind_eq
  text_eq ht _ := ht.1.text_eq
  literal_eq ht _ := ht.1.literal_eq
  adjoins_eq := by
    rintro t t' u u' ⟨-, m, ht, ht'⟩ ⟨-, n, hu, hu'⟩ hkind hkind'
    rcases Nat.lt_trichotomy m n with hlt | rfl | hgt
    · exact (h.adjoins_item hroom hregular hlt ht ht' hkind hu hu' hkind').1
    · obtain rfl : t = u := by simpa [ht] using hu
      obtain rfl : t' = u' := by simpa [ht'] using hu'
      exact (h.item_number hroom hregular ht ht' hkind).1.adjoins_self
    · exact (h.adjoins_item hroom hregular hgt hu hu' hkind' ht ht' hkind).2

theorem Lexer.Respaced.related (h : lexer.Respaced room Past lexer') (hroom : room)
    (hregular : lexer.Regular) :
    lexer.Related (Token.Counterpart lexer lexer') ScriptError.Respaced ScriptError.Respaced
      lexer' where
  indistinct := Token.indistinct_respaced h hroom hregular
  items := (h.matched hregular).items
  blame n cause _ _ ht := (h.after hregular n).blame cause ht.1
  error he := he

end

/-- Of texts with as many lines, each is empty if the other one is. -/
theorem Text.eq_empty_iff_of_lines {R : List Char → List Char → Prop} {text text' : String}
    (hlines : List.Forall₂ R (Text.lines text.toList) (Text.lines text'.toList)) :
    text = "" ↔ text' = "" := by
  have hiff : text.toList = [] ↔ text'.toList = [] := by
    constructor <;> intro hnil <;> rw [hnil] at hlines
    · exact Text.lines_eq_nil (List.forall₂_nil_left_iff.1 hlines)
    · exact Text.lines_eq_nil (List.forall₂_nil_right_iff.1 hlines)
  rwa [String.toList_eq_nil_iff, String.toList_eq_nil_iff] at hiff

/-- Blanks between tokens are interchangeable, and so are the widths of tabs : texts that differ
in nothing else are lexed to tokens of the same kind, text and value on the same lines, and to an
error in both or in neither. They are read as the same script or not at all. If each line of both
can be shown, nothing panics, and the errors say the same about the same text on the same line. -/
theorem Script.ofSource_respaced {name text text' : String} {tab tab' : TabStop}
    {source source' : Source} (h : source.Holds name text tab) (h' : source'.Holds name text' tab')
    (hlines : List.Forall₂ Text.Respaced (Text.lines text.toList) (Text.lines text'.toList)) :
    let lexer := Lexer.ofSource source
    let lexer' := Lexer.ofSource source'
    (List.Forall₂ Token.Respaced lexer.toEnd.tokens lexer'.toEnd.tokens ∧
      Option.Rel ScriptError.Respaced lexer.toEnd.failure lexer'.toEnd.failure) ∧
    (∀ script, Script.ofSource source = .ok script ↔ Script.ofSource source' = .ok script) ∧
    (tab.FitsText text → tab'.FitsText text' →
      (∃ script, Script.run source = .returns (.ok script) ∧
        Script.run source' = .returns (.ok script)) ∨
      ∃ d d', Script.run source = .returns (.error (.fatal (.located d))) ∧
        Script.run source' = .returns (.error (.fatal (.located d'))) ∧ d.Respaced d') := by
  obtain rfl := h.eq_ofText
  obtain rfl := h'.eq_ofText
  intro lexer lexer'
  have hregular : lexer.Regular := Lexer.regular_ofSource name text tab
  have hrespaced : lexer.Respaced (tab.FitsText text ∧ tab'.FitsText text') (fun _ _ => False)
      lexer' := Lexer.respaced_ofText name tab tab' hlines
  obtain ⟨hcounterparts, hfailure⟩ := (hrespaced.matched hregular).toEnd
  have htokens : List.Forall₂ Token.Respaced lexer.toEnd.tokens lexer'.toEnd.tokens :=
    hcounterparts.imp fun _ _ ht => ht.1
  have hsymbols := Token.Respaced.map_symbol htokens
  refine ⟨⟨htokens, hfailure⟩, fun script => ?_, fun hfits hfits' => ?_⟩
  · rcases eq_or_ne text "" with hempty | hne
    · obtain rfl := hempty
      obtain rfl := (Text.eq_empty_iff_of_lines hlines).1 rfl
      rw [Script.ofSource_nil, Script.ofSource_nil]
    · have hne' := mt (Text.eq_empty_iff_of_lines hlines).2 hne
      exact ⟨fun hscript => Script.ofSource_eq_of_symbols hne hscript hsymbols,
        fun hscript => Script.ofSource_eq_of_symbols hne' hscript hsymbols.symm⟩
  · have hresults := Script.results_related (hrespaced.related ⟨hfits, hfits'⟩ hregular)
    rw [Script.run_eq hfits, Script.run_eq hfits']
    rcases hread : Script.ofSource (.ofText name text tab) with halt | script <;>
      rw [hread] at hresults
    · obtain ⟨d, rfl, -⟩ := Script.ofSource_located hread
      obtain ⟨e', hread', hsame⟩ := hresults.of_fatal
      cases hsame with
      | located hd => exact .inr ⟨d, _, rfl, congrArg Run.returns hread', hd⟩
    · have hread' : Script.ofSource (.ofText name text' tab') = .ok script := by
        simpa [Script.empty] using hresults.of_ok
      exact .inl ⟨script, rfl, congrArg Run.returns hread'⟩

/-- A number that begins with a zero : what is wrong with it is the same behind a space and
behind a wide tab and a space, though the columns are not. With a name in its place, the script is
the same. -/
theorem Script.ofSource_respaced_leading_zero :
    let narrow (text : String) := Source.ofText "" text (.ofSize 1)
    let wide (text : String) := Source.ofText "" text (.ofSize 8)
    let d : Diagnostic := { cause := .leadingZeros, source := "", line := 1, startColumn := 3,
                            endColumn := 4, text := "0", context := some "m 01" }
    let d' : Diagnostic := { d with startColumn := 11, endColumn := 12,
                                    context := some "m         01" }
    let script : Script := { commands := #[
      { directive := "m", parameters := parametersOf [.expr (.name "x")] [] }] }
    (Script.run (narrow "m 01\n") = .returns (.error (.fatal (.located d))) ∧
      Script.run (wide "m\t 01\n") = .returns (.error (.fatal (.located d'))) ∧
      d.Respaced d') ∧
    Script.ofSource (narrow "m x\n") = .ok script ∧
      Script.ofSource (wide "m\t x\n") = .ok script := by
  intro narrow wide d d' script
  have hword (rest : List Char) : Lexeme.scan? (['m'] ++ (' ' :: rest)) =
      some ⟨.name, 1, by decide⟩ :=
    rfl
  have hblanks (rest : List Char) :
      Text.Respaced (['m'] ++ ([' '] ++ rest)) (['m'] ++ (['\t', ' '] ++ rest)) :=
    .lexeme (hword rest) rfl
      (.blanks (by simp) (by simp) (by simp [Lexer.isBlank]) (by simp [Lexer.isBlank]) (.refl _))
  have hread : Script.ofSource (.ofText "" "m 01\n" (.ofSize 1)) =
      .error (.fatal (.located d)) := by
    rw [Script.ofSource_eq_verdict]
    rfl
  have hread' : Script.ofSource (.ofText "" "m\t 01\n" (.ofSize 8)) =
      .error (.fatal (.located d')) := by
    rw [Script.ofSource_eq_verdict]
    rfl
  have hscript : Script.ofSource (.ofText "" "m x\n" (.ofSize 1)) = .ok script := by
    rw [Script.ofSource_eq_verdict]
    decide +kernel
  have hfits : (TabStop.ofSize 1).FitsText "m 01\n" := by
    unfold TabStop.FitsText
    decide +kernel
  have hfits' : (TabStop.ofSize 8).FitsText "m\t 01\n" := by
    unfold TabStop.FitsText
    decide +kernel
  obtain ⟨-, -, hruns⟩ :=
    Script.ofSource_respaced (.inl rfl : (narrow "m 01\n").Holds "" "m 01\n" (.ofSize 1))
      (.inl rfl : (wide "m\t 01\n").Holds "" "m\t 01\n" (.ofSize 8))
      (.cons (hblanks ['0', '1', '\n']) .nil)
  obtain ⟨-, hscripts, -⟩ :=
    Script.ofSource_respaced (.inl rfl : (narrow "m x\n").Holds "" "m x\n" (.ofSize 1))
      (.inl rfl : (wide "m\t x\n").Holds "" "m\t x\n" (.ofSize 8))
      (.cons (hblanks ['x', '\n']) .nil)
  refine ⟨?_, hscript, (hscripts script).1 hscript⟩
  have hrun := Script.run_eq hfits ""
  have hrun' := Script.run_eq hfits' ""
  rw [hread] at hrun
  rw [hread'] at hrun'
  rcases hruns hfits hfits' with ⟨script, hscript, -⟩ | ⟨e, e', he, he', hsame⟩
  · simp [show Script.run (narrow "m 01\n") = _ from hrun] at hscript
  · obtain rfl : d = e := by simpa [show Script.run (narrow "m 01\n") = _ from hrun] using he
    obtain rfl : d' = e' := by simpa [show Script.run (wide "m\t 01\n") = _ from hrun'] using he'
    exact ⟨hrun, hrun', hsame⟩

/-- A text of a character that begins no token is refused with tabs of four columns, and reading it
panics with the widest tabs. -/
theorem Script.ofSource_respaced_panic :
    let d : Diagnostic := { cause := .illegalCharacter '?', source := "", line := 1,
                            startColumn := 1, endColumn := 2, text := "?", context := some "?" }
    List.Forall₂ Text.Respaced (Text.lines "?".toList) (Text.lines "?".toList) ∧
      Script.run (.ofText "" "?") = .returns (.error (.fatal (.located d))) ∧
      Script.run (.ofText "" "?" (.ofSize 18446744073709551615)) = .panics := by
  intro d
  have hread : Script.ofSource (.ofText "" "?") = .error (.fatal (.located d)) := by
    rw [Script.ofSource_eq_verdict]
    decide +kernel
  have hread' : Script.ofSource (.ofText "" "?" (.ofSize 18446744073709551615)) =
      .error (.fatal (.located d)) := by
    rw [Script.ofSource_eq_verdict]
    decide +kernel
  refine ⟨List.forall₂_same.2 fun line _ => .refl line, ?_, ?_⟩
  · rw [Script.run, hread]
    rfl
  · rw [Script.run, hread']
    rfl

end OpticScript
