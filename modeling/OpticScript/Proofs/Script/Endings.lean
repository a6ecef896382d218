import OpticScript.Proofs.Lexer.Endings
import OpticScript.Proofs.Script.Precedence
import OpticScript.Proofs.Text.Bytes

/-!
# Scripts and line endings

How a text ends its lines makes no difference to what is read from it
(`Script.ofSource_joined`). The tokens are the same but for what the newlines are written
like, the lexer finds the same errors, and so the script is the same or the error is, and an
error looks different only where it underlines a newline. That holds of a text and of its
bytes, which are read line by line.
-/

namespace OpticScript

open Packrat Packrat.Outcome

/-- The script is this text, as it is or in bytes. -/
def Source.Holds (source : Source) (name text : String) (tab : TabStop) : Prop :=
  source = .ofText name text tab ∨ source = .ofBytes name text.toUTF8.data.toList tab

/-- The diagnostic is about this token. -/
structure Diagnostic.Blames (d : Diagnostic) (t : Token) : Prop where
  line_eq : d.line = t.line
  startColumn_eq : d.startColumn = t.startColumn
  endColumn_eq : d.endColumn = t.stopColumn
  text_eq : d.text = t.text

/-- Diagnostics that are the same but for the text at fault and its end. -/
structure Diagnostic.Agrees (d d' : Diagnostic) : Prop where
  cause_eq : d'.cause = d.cause
  source_eq : d'.source = d.source
  line_eq : d'.line = d.line
  startColumn_eq : d'.startColumn = d.startColumn
  context_eq : d'.context = d.context

/-- Both diagnostics are about a newline that the lexers give after as many tokens. -/
def Diagnostic.BlameNewline (d d' : Diagnostic) (lexer lexer' : Lexer) : Prop :=
  ∃ n t t', lexer.item n = .ok (some t) ∧ lexer'.item n = .ok (some t') ∧
    t.kind = .newline ∧ t'.kind = .newline ∧ d.Blames t ∧ d'.Blames t'

/-- Errors that are the same, unless both are about a newline. -/
inductive ScriptError.Twin (lexer lexer' : Lexer) : ScriptError → ScriptError → Prop
  | same (e : ScriptError) : Twin lexer lexer' e e
  | newline {d d' : Diagnostic} (h : d.Agrees d') (hnewline : d.BlameNewline d' lexer lexer') :
      Twin lexer lexer' (.located d) (.located d')

/-- Tokens that the lexers give after as many others. -/
def Token.Paired (lexer lexer' : Lexer) (t t' : Token) : Prop :=
  t.Twin t' ∧ ∃ n, lexer.item n = .ok (some t) ∧ lexer'.item n = .ok (some t')

section

variable {lexer lexer' : Lexer}

/-- The grammar does not look at what a newline is written like. -/
theorem Token.indistinct_paired (lexer lexer' : Lexer) :
    Token.Indistinct (Token.Paired lexer lexer') where
  kind_eq h := h.1.kind_eq
  text_eq h hkind := congrArg Token.text (h.1.eq_of_ne hkind)
  literal_eq h hkind := congrArg Token.literal (h.1.eq_of_ne hkind)
  adjoins_eq h h' hkind hkind' := by
    rw [h.1.eq_of_ne (by simp [hkind]), h'.1.eq_of_ne (by simp [hkind'])]

theorem Lexer.Twin.related (h : lexer.Twin lexer') :
    lexer.Related (Token.Paired lexer lexer') (fun e e' => e' = e) (ScriptError.Twin lexer lexer')
      lexer' where
  indistinct := Token.indistinct_paired lexer lexer'
  items n := by
    rcases h.item n with ⟨t, t', ht, ht', htwin⟩ | ⟨e, he, he'⟩
    · rw [ht, ht']
      exact .some ⟨htwin, n, ht, ht'⟩
    · rw [he, he']
      rfl
  blame n cause t t' := by
    rintro ⟨htwin, m, ht, ht'⟩
    have hafter := h.after n
    by_cases hkind : t.kind = .newline
    · refine .newline ⟨rfl, hafter.source_eq, htwin.line_eq, htwin.startColumn_eq, ?_⟩
        ⟨m, t, t', ht, ht', hkind, htwin.kind_eq.trans hkind, ⟨rfl, rfl, rfl, rfl⟩, rfl,
          rfl, rfl, rfl⟩
      simp only [Lexer.blame, htwin.line_eq, hafter.sourceLine_eq]
    · rw [htwin.eq_of_ne hkind, hafter.blame_eq]
      exact .same _
  error := by
    rintro e e' rfl
    exact .same _

end

theorem Source.Holds.eq_ofText {source : Source} {name text : String} {tab : TabStop}
    (h : source.Holds name text tab) : source = .ofText name text tab := by
  rcases h with rfl | rfl
  · rfl
  · exact Source.ofBytes_utf8 name text tab

/-- Lexers of the same lines run in step, however the lines end. -/
theorem Lexer.twin_joined (name : String) (tab : TabStop) (u v : LineEnding) {lines : List String}
    (hlines : ∀ line ∈ lines, ∀ c ∈ line.toList, Text.isLineBreak c = false) (ended : Bool) :
    (Lexer.ofSource (.ofText name (Text.joined u lines ended) tab)).Twin
      (Lexer.ofSource (.ofText name (Text.joined v lines ended) tab)) := by
  refine Lexer.twin_ofSource rfl rfl ?_
  refine List.forall₂_map_left_iff.2 (List.forall₂_map_right_iff.2 ?_)
  exact (Text.sameLines_joined u v hlines ended).imp fun _ _ hline => .line hline

/-- Line endings are interchangeable : lines that are joined by any of them are lexed to the
same tokens, but for what a newline is written like, and to the same error. They are read as
the same script, or with errors that say the same at the same place, and that differ in the
text at fault and its end only if a newline is at fault. -/
theorem Script.ofSource_joined {name : String} {tab : TabStop} {u v : LineEnding}
    {lines : List String} {ended : Bool} {source source' : Source}
    (hlines : ∀ line ∈ lines, ∀ c ∈ line.toList, Text.isLineBreak c = false)
    (h : source.Holds name (Text.joined u lines ended) tab)
    (h' : source'.Holds name (Text.joined v lines ended) tab) :
    let lexer := Lexer.ofSource source
    let lexer' := Lexer.ofSource source'
    (List.Forall₂ Token.Twin lexer.toEnd.tokens lexer'.toEnd.tokens ∧
      lexer'.toEnd.failure = lexer.toEnd.failure) ∧
    ((∃ script, Script.ofSource source = .ok script ∧ Script.ofSource source' = .ok script) ∨
      ∃ d d', Script.ofSource source = .error (.fatal (.located d)) ∧
        Script.ofSource source' = .error (.fatal (.located d')) ∧ d.Agrees d' ∧
        (d' = d ∨ d.BlameNewline d' lexer lexer')) := by
  intro lexer lexer'
  have htwin : lexer.Twin lexer' := by
    simp only [lexer, lexer', h.eq_ofText, h'.eq_ofText]
    exact Lexer.twin_joined name tab u v hlines ended
  obtain ⟨htokens, hfailure⟩ := htwin.related.matched.toEnd
  refine ⟨⟨htokens.imp fun _ _ ht => ht.1, eq_of_rel hfailure⟩, ?_⟩
  have hresults := Script.results_related htwin.related
  rcases hread : Script.ofSource source with halt | script <;> rw [hread] at hresults
  · have hlocated : Script.ofSource (.ofText name (Text.joined u lines ended) tab) = .error halt :=
      h.eq_ofText ▸ hread
    obtain ⟨d, rfl, -⟩ := Script.ofSource_located hlocated
    obtain ⟨e', hread', htwins⟩ := hresults.of_fatal
    refine .inr ⟨d, ?_⟩
    cases htwins with
    | same => exact ⟨d, rfl, hread', ⟨rfl, rfl, rfl, rfl, rfl⟩, .inl rfl⟩
    | @newline _ d' hagrees hnewline => exact ⟨d', rfl, hread', hagrees, .inr hnewline⟩
  · exact .inl ⟨script, rfl, by simpa [Script.empty] using hresults.of_ok⟩

/-- A directive without parameters : the newline is at fault, and it is longer if it is two
characters long. With its parameters, and in front of a surface line, the newline may be one
character or another. -/
theorem Script.ofSource_joined_newline :
    let source := Source.ofText "" "m\n"
    let source' := Source.ofBytes "" "m\r\n".toUTF8.data.toList
    let d : Diagnostic := { cause := .unrecognized, source := "", line := 1, startColumn := 2,
                            endColumn := 3, text := "\n", context := some "m" }
    let d' : Diagnostic := { d with endColumn := 4, text := "\r\n" }
    let parameters (x : String) : Parameters := { args := [.expr (.name x)], keywords := .empty }
    let script : Script := { commands := #[
      { directive := "m", parameters := parameters "x", surfaces := #[parameters "y"] }] }
    (Script.ofSource source = .error (.fatal (.located d)) ∧
      Script.ofSource source' = .error (.fatal (.located d')) ∧ d.Agrees d' ∧
      d.BlameNewline d' (Lexer.ofSource source) (Lexer.ofSource source')) ∧
    Script.ofSource (.ofText "" "m x\r+y") = .ok script ∧
      Script.ofSource (.ofBytes "" "m x\n+y".toUTF8.data.toList) = .ok script := by
  intro source source' d d' parameters script
  have hread : Script.ofSource (.ofText "" "m\n") = .error (.fatal (.located d)) := by
    rw [Script.ofSource_eq_verdict]
    decide +kernel
  have hread' : Script.ofSource source' = .error (.fatal (.located d')) := by
    rw [show source' = .ofText "" "m\r\n" from Source.ofBytes_utf8 "" "m\r\n" default,
      Script.ofSource_eq_verdict]
    decide +kernel
  have hscript : Script.ofSource (.ofText "" "m x\r+y") = .ok script := by
    rw [Script.ofSource_eq_verdict]
    decide +kernel
  have hjoined : Text.joined .lineFeed ["m"] true = "m\n" := by decide
  have hjoined' : Text.joined .both ["m"] true = "m\r\n" := by decide
  have hlines : ∀ line ∈ ["m"], ∀ c ∈ line.toList, Text.isLineBreak c = false := by
    simp [Text.isLineBreak]
  have h : source.Holds "" (Text.joined .lineFeed ["m"] true) default := .inl (by rw [hjoined])
  have h' : source'.Holds "" (Text.joined .both ["m"] true) default := .inr (by rw [hjoined'])
  have hsurface : Text.joined .carriageReturn ["m x", "+y"] false = "m x\r+y" := by decide
  have hsurface' : Text.joined .lineFeed ["m x", "+y"] false = "m x\n+y" := by decide
  have hlines' : ∀ line ∈ ["m x", "+y"], ∀ c ∈ line.toList, Text.isLineBreak c = false := by
    simp [Text.isLineBreak]
  refine ⟨?_, hscript, ?_⟩
  · obtain ⟨-, ⟨script, hscript, -⟩ | ⟨e, e', he, he', hagrees, hsame⟩⟩ :=
      Script.ofSource_joined hlines h h'
    · simp [show Script.ofSource source = _ from hread] at hscript
    · obtain rfl : d = e := by simpa [show Script.ofSource source = _ from hread] using he
      obtain rfl : d' = e' := by simpa [hread'] using he'
      exact ⟨hread, hread', hagrees, hsame.resolve_left (by simp [d, d'])⟩
  · obtain ⟨-, ⟨script', hscript', hread⟩ | ⟨e, -, he, -⟩⟩ :=
      Script.ofSource_joined hlines' (.inl (congrArg (Source.ofText "" · default) hsurface).symm)
        (.inr (congrArg (Source.ofBytes "" ·.toUTF8.data.toList default) hsurface').symm)
    · obtain rfl : script = script' := by simpa [hscript] using hscript'
      exact hread
    · simp [hscript] at he

end OpticScript
