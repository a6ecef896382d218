import OpticScript.Proofs.Grammar.Lines
import OpticScript.Proofs.Parser.Lines

/-!
# Scripts that are spelled are read

The lines of a script are read one by one, and the script grows by a command or by a surface of
its last command (`LinesMatch`). So a source whose tokens are the symbols of a script, with a
newline behind each line and the end marker behind them all, is read as that script
(`Script.SpelledBy.ofSource_eq`).
-/

namespace OpticScript

open Filter Packrat Packrat.Branch Packrat.Outcome

section

variable {items : Nat → Except ScriptError (Option Token)} {pos mid stop : Nat}
  {script result : Script}

/-- The lines from a position on make one script of another, with enough fuel. -/
def LinesMatch (items : Nat → Except ScriptError (Option Token)) (script : Script) (pos : Nat)
    (result : Script) (stop : Nat) : Prop :=
  ∃ lines, ∀ᶠ fuel in atTop, ∀ rounds ≥ lines,
    (linesOutcome (evaluate scriptGrammar items fuel .scriptLine) rounds script pos).ComesTo result
      stop

/-- Where no line begins the lines are read. -/
theorem LinesMatch.nil (script : Script) (h : Rule.scriptLine.Matches items pos none pos) :
    LinesMatch items script pos script pos := by
  refine ⟨1, h.mono fun fuel h rounds hrounds => ?_⟩
  obtain ⟨rounds, rfl⟩ := Nat.exists_eq_succ_of_ne_zero (show rounds ≠ 0 by omega)
  exact h.andThen (comesTo_here _ _)

/-- There is no line at the end marker. -/
theorem LinesMatch.endMarker (script : Script) (h : Sees items pos (· = .endMarker)) :
    LinesMatch items script pos script pos :=
  .nil script (matches_scriptLine_none (h.imp fun _ heq => by simp [heq])
    (.inl (matches_command_none (h.imp fun _ heq => by simp [heq]))))

theorem LinesMatch.cons {next : Line} {script' : Script}
    (hline : Rule.scriptLine.Matches items pos (some next) mid)
    (hadd : Parser.addLine script next = .ok script')
    (h : LinesMatch items script' mid result stop) :
    LinesMatch items script pos result stop := by
  obtain ⟨lines, h⟩ := h
  refine ⟨lines + 1, ?_⟩
  filter_upwards [hline, h] with fuel hline h rounds hrounds
  obtain ⟨rounds, rfl⟩ := Nat.exists_eq_succ_of_ne_zero (show rounds ≠ 0 by omega)
  rw [linesOutcome]
  refine hline.andThen ?_
  simp only [hadd]
  exact h rounds (by omega)

/-- What the lines of a source make is what is read from it, if the end marker comes after them. -/
theorem LinesMatch.ofSource_eq_ok_iff {source : Source}
    (h : LinesMatch (Lexer.ofSource source).item .empty 0 script stop) {script' : Script} :
    Script.ofSource source = .ok script' ↔
      script = script' ∧ Sees (Lexer.ofSource source).item stop (· = .endMarker) := by
  obtain ⟨rounds, hrounds⟩ := h
  obtain ⟨fuel, hcomes, hfuel⟩ := (hrounds.and
    (eventually_ge_atTop (max rounds (Parser.fuel (.ofLexer (.ofSource source)))))).exists
  have hcomes :
    (linesOutcome ((Lexer.ofSource source).comesTo fuel .scriptLine) fuel .empty 0).ComesTo
      script stop := hcomes fuel ((Nat.le_max_left _ _).trans hfuel)
  rw [ofSource_eq_conclusion ((Nat.le_max_right _ _).trans hfuel), Lexer.conclusion_eq_ok_iff,
    hcomes.1, hcomes.2, Except.ok.injEq]
  rfl

/-! ## Commands -/

/-- A source is read as a single command, if its parameters are read behind the directive and
nothing comes behind them. -/
theorem Script.ofSource_command {source : Source} {name : Token} {p : Parameters}
    (hitem : (Lexer.ofSource source).item 0 = .ok (some name)) (hname : name.kind = .name)
    (hparams : Rule.commandParams.Matches (Lexer.ofSource source).item 1 (some p) mid)
    (hend : EndReads (Lexer.ofSource source).item mid stop)
    (hmark : Sees (Lexer.ofSource source).item stop (· = .endMarker)) :
    Script.ofSource source =
      .ok { commands := #[{ directive := name.text, parameters := p }] } := by
  have hline := matches_statement (matches_primary hitem hname hparams) hend
  exact (LinesMatch.cons hline rfl (.endMarker _ hmark)).ofSource_eq_ok_iff.2 ⟨rfl, hmark⟩

/-- The symbols of lines, with a newline behind each. -/
def endedLines (lines : List (List Symbol)) : List Symbol := lines.flatMap (· ++ [.newline])

theorem endedLines_cons (line : List Symbol) (lines : List (List Symbol)) :
    endedLines (line :: lines) = line ++ [.newline] ++ endedLines lines := rfl

theorem endedLines_append (lines more : List (List Symbol)) :
    endedLines (lines ++ more) = endedLines lines ++ endedLines more :=
  List.flatMap_append

theorem addSurface_push (script : Script) (c : Command) (surface : Parameters) :
    (script.push c).addSurface? surface = some (script.push (c.addSurface surface)) := by
  simp [Script.addSurface?, Script.push]

/-- Surface lines put their surfaces on the last command. -/
theorem LinesMatch.surfaces {c : Command} {surfaces : List Parameters}
    {spellings : List (List Symbol)} (h : List.Forall₂ Parameters.SpelledBy surfaces spellings)
    (hshows : Shows items pos (endedLines (spellings.map (.surface :: ·))))
    (hmore : LinesMatch items (script.push { c with surfaces := c.surfaces ++ surfaces.toArray })
      (pos + (endedLines (spellings.map (.surface :: ·))).length) result stop) :
    LinesMatch items (script.push c) pos result stop := by
  induction h generalizing pos c with
  | nil => simpa [endedLines] using hmore
  | @cons surface symbols surfaces spellings hsurface _ ih =>
    rw [List.map_cons, endedLines_cons] at hshows hmore
    obtain ⟨hfirst, hrest⟩ := shows_append.1 hshows
    obtain ⟨marker, hline⟩ := hsurface.matches_surface hfirst
    have hlength : pos + (Symbol.surface :: symbols ++ [Symbol.newline]).length =
        pos + (symbols.length + 1) + 1 :=
      add_length_append _ _ _
    have hadd : Parser.addLine (script.push c) (.statement (.secondary surface marker)) =
        .ok (script.push (c.addSurface surface)) := by
      simp only [Parser.addLine, addSurface_push]
    refine .cons hline hadd (ih (hlength ▸ hrest) ?_)
    rw [List.length_append, ← Nat.add_assoc, hlength] at hmore
    simpa [Command.addSurface] using hmore

/-- The lines of a command add it to the script. -/
theorem LinesMatch.command {c : Command} {lines : List (List Symbol)} (h : c.SpelledBy lines)
    (hshows : Shows items pos (endedLines lines))
    (hmore : LinesMatch items (script.push c) (pos + (endedLines lines).length) result stop) :
    LinesMatch items script pos result stop := by
  cases h with
  | @mk params surfaces hparams hsurfaces =>
    rw [endedLines_cons] at hshows hmore
    obtain ⟨hfirst, hrest⟩ := shows_append.1 hshows
    have hlength : pos + (Symbol.name c.directive :: params ++ [Symbol.newline]).length =
        pos + (params.length + 1) + 1 :=
      add_length_append _ _ _
    refine .cons (hparams.matches_directive hfirst) rfl (.surfaces hsurfaces (hlength ▸ hrest) ?_)
    rw [List.length_append, ← Nat.add_assoc, hlength] at hmore
    simpa using hmore

theorem LinesMatch.commands (script : Script) {commands : List Command}
    {spellings : List (List (List Symbol))} (h : List.Forall₂ Command.SpelledBy commands spellings)
    (hshows : Shows items pos (endedLines spellings.flatten))
    (hend : Sees items (pos + (endedLines spellings.flatten).length) (· = .endMarker)) :
    LinesMatch items script pos { commands := script.commands ++ commands.toArray }
      (pos + (endedLines spellings.flatten).length) := by
  induction h generalizing pos script with
  | nil => simpa [endedLines] using LinesMatch.endMarker script hend
  | @cons c lines commands spellings hcommand _ ih =>
    rw [List.flatten_cons, endedLines_append] at hshows hend ⊢
    rw [List.length_append, ← Nat.add_assoc] at hend ⊢
    obtain ⟨hfirst, hrest⟩ := shows_append.1 hshows
    have hmore := ih (script.push c) hrest hend
    exact .command hcommand hfirst (by simpa [Script.push] using hmore)

/-- A source is read as the script that its tokens spell. -/
theorem Script.SpelledBy.ofSource_eq {lines : List (List Symbol)} (h : script.SpelledBy lines)
    {source : Source} (hshows : Shows (Lexer.ofSource source).item 0 (endedLines lines))
    (hend : Sees (Lexer.ofSource source).item (endedLines lines).length (· = .endMarker)) :
    Script.ofSource source = .ok script := by
  cases h with
  | @mk spellings hcommands =>
    have hmatch : LinesMatch (Lexer.ofSource source).item .empty 0 script
        (endedLines spellings.flatten).length := by
      simpa [Script.empty] using
        LinesMatch.commands .empty hcommands hshows (by simpa using hend)
    exact hmatch.ofSource_eq_ok_iff.2 ⟨rfl, hend⟩

end

end OpticScript
