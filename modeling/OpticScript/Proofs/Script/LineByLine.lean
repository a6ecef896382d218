import OpticScript.Proofs.Lexer.LineByLine
import OpticScript.Proofs.Script.Append
import OpticScript.Proofs.Script.Completeness

/-!
# Scripts line by line

A text is read as a script if and only if each of its lines is read as a form by itself, the
brackets in all of them are balanced, and no surface line comes before the first command line
(`Script.ofText_eq_ok_iff`). The commands are then those of the forms.
-/

namespace OpticScript

/-- The lines have symbols that are read as these forms line by line, with balanced brackets. -/
structure LineByLine (lines : List (List Char)) (spellings : List (List Symbol))
    (forms : List LineForm) : Prop where
  cut : List.Forall₂ CutLine lines spellings
  reads : List.Forall₂ LineForm.ReadsLine forms spellings
  balanced : ∃ word, Balanced word ∧ word.map Token.kind = bracketKinds spellings

section

variable {items : Nat → Except ScriptError (Option Token)} {pos : Nat} {forms : List LineForm}
  {spellings : List (List Symbol)} {tokens : List Token} {script : Script}

theorem LineForm.Gives.isSortOf {form : LineForm} {line : Line} (h : form.Gives line) :
    form.IsSortOf line := by
  cases form with
  | blank => exact h ▸ .blank
  | command => exact h ▸ .command
  | surface =>
    obtain ⟨marker, rfl⟩ := h
    exact .surface

/-- A line is matched up to its newline. -/
theorem LineForm.ReadsLine.exists_matches {form : LineForm} {symbols : List Symbol}
    (h : form.ReadsLine symbols)
    (hshows : Shows items pos symbols)
    (hnewline : Sees items (pos + symbols.length) (· = .newline)) :
    ∃ line, form.Gives line ∧ Rule.scriptLine.Matches items pos (some line)
      (pos + symbols.length + 1) := by
  cases h with
  | mk h _ hnote =>
    rw [add_length_append] at hnewline ⊢
    obtain ⟨hfirst, hmore⟩ := shows_append.1 hshows
    exact h hfirst (hnote.endReads hmore hnewline)

/-- Lines are read one by one up to the end marker, and the script is completed with them. -/
theorem Lined.exists_linesMatch (h : Lined spellings tokens)
    (hforms : List.Forall₂ LineForm.ReadsLine forms spellings)
    (hlists : Lists items pos tokens) (hattached : Attached script.commands.toList forms) :
    ∃ result stop, LinesMatch items script pos result stop ∧ Sees items stop (· = .endMarker) ∧
      result.commands.toList = completed script.commands.toList forms := by
  induction h generalizing forms pos script with
  | @nil mark hmark =>
    cases hforms
    have hend : Sees items pos (· = .endMarker) := ⟨mark, hlists.1, hmark⟩
    exact ⟨script, pos, .endMarker script hend, hend, (completed_no_lines _).symm⟩
  | @cons line rest newline spellings _ hnewline _ ih =>
    cases hforms with
    | @cons form _ forms _ hform hforms =>
      obtain ⟨hline, hitem, hrest⟩ := lists_append.1 hlists
      have hlength : (line.map Token.symbol).length = line.length := List.length_map _
      rw [← hlength] at hitem hrest
      obtain ⟨next, hgives, hmatches⟩ :=
        hform.exists_matches (shows_iff_lists.2 ⟨line, rfl, hline⟩) ⟨newline, hitem, hnewline⟩
      obtain ⟨script', hadd, hattached'⟩ := hgives.isSortOf.addLine hattached
      obtain ⟨result, stop, hmatch, hend, hcommands⟩ := ih hforms hrest hattached'
      exact ⟨result, stop, .cons hmatches hadd hmatch, hend,
        hcommands.trans (addLine_completed hgives hadd hattached').1⟩

end

section

variable {name text : String} {tab : TabStop} {forms : List LineForm}
  {spellings : List (List Symbol)}

theorem Script.eq_of_commands {script script' : Script}
    (h : script.commands.toList = script'.commands.toList) : script = script' := by
  obtain ⟨commands⟩ := script
  obtain ⟨commands'⟩ := script'
  rw [Script.mk.injEq, ← Array.toList_inj]
  exact h

/-- A text the lines of which are read one by one is read as the script of their commands. -/
theorem LineByLine.ofSource_eq {script : Script}
    (h : LineByLine (Text.lines text.toList) spellings forms)
    (hfirst : surfacesOf forms = []) (hcommands : script.commands.toList = commandsOf forms) :
    Script.ofSource (.ofText name text tab) = .ok script := by
  rcases eq_or_ne text "" with rfl | hne
  · have hnil : Text.lines "".toList = [] := rfl
    obtain rfl := List.forall₂_nil_left_iff.1 (hnil ▸ h.cut)
    obtain rfl := List.forall₂_nil_right_iff.1 h.reads
    obtain rfl : Script.empty = script := Script.eq_of_commands hcommands.symm
    exact Script.ofSource_nil name tab
  · obtain ⟨hiff, hlined⟩ := Lexer.failure_cutLines_iff name tab h.cut hne
    have hattached : Attached Script.empty.commands.toList forms := fun _ => hfirst
    obtain ⟨result, stop, hmatch, hend, hresult⟩ :=
      (hlined (hiff.2 h.balanced)).exists_linesMatch h.reads (Lexer.lists_toEnd _) hattached
    obtain rfl : result = script := Script.eq_of_commands (hresult.trans hcommands.symm)
    exact hmatch.ofSource_eq_ok_iff.2 ⟨rfl, hend⟩

/-- A text is read as a script if and only if its lines are read one by one, and the commands are
theirs. -/
theorem Script.ofText_eq_ok_iff {script : Script} :
    Script.ofSource (.ofText name text tab) = .ok script ↔
      ∃ spellings forms, LineByLine (Text.lines text.toList) spellings forms ∧
        surfacesOf forms = [] ∧ script.commands.toList = commandsOf forms := by
  constructor
  · intro hscript
    rcases eq_or_ne text "" with rfl | hne
    · obtain rfl : script = .empty := by simpa [Script.ofSource_nil] using hscript.symm
      exact ⟨[], [], ⟨.nil, .nil, [], .nil, rfl⟩, rfl, rfl⟩
    · obtain ⟨hfailure, forms, hderives, hfirst, -, hwhole⟩ := Script.exists_derives hscript
      obtain ⟨spellings, hcut⟩ := Lexer.exists_cutLines hfailure
      obtain ⟨hiff, hlined⟩ := Lexer.failure_cutLines_iff name tab hcut hne
      cases hderives with
      | lines hlines hmark =>
        obtain ⟨forms', hsorts, hreads⟩ :=
          hlines.exists_readsLine rfl hmark hwhole (hlined hfailure)
        have hfirst' := surfacesOf_eq_nil_of_sameSort hsorts hfirst
        have hread : LineByLine (Text.lines text.toList) spellings forms' :=
          ⟨hcut, hreads, hiff.1 hfailure⟩
        -- nothing else can be read than what the lines are read as
        have heq : Script.ofSource (.ofText name text tab) =
            .ok { commands := (commandsOf forms').toArray } :=
          hread.ofSource_eq hfirst' rfl
        obtain rfl := Except.ok.inj (hscript.symm.trans heq)
        exact ⟨spellings, forms', hread, hfirst', rfl⟩
  · rintro ⟨spellings, forms, hread, hfirst, hcommands⟩
    exact hread.ofSource_eq hfirst hcommands

/-- A script depends on the symbols of the tokens alone : it is read from every source whose tokens
have the same ones. -/
theorem Script.ofSource_eq_of_symbols {script : Script} {source : Source} (hne : text ≠ "")
    (hscript : Script.ofSource (.ofText name text tab) = .ok script)
    (hsymbols : (Lexer.ofSource source).toEnd.tokens.map Token.symbol =
      (Lexer.ofSource (.ofText name text tab)).toEnd.tokens.map Token.symbol) :
    Script.ofSource source = .ok script := by
  obtain ⟨hfailure, -⟩ := Script.exists_derives hscript
  obtain ⟨spellings, forms, hread, hfirst, hcommands⟩ := Script.ofText_eq_ok_iff.1 hscript
  have hlined :=
    ((Lexer.failure_cutLines_iff name tab hread.cut hne).2 hfailure).of_symbols hsymbols
  have hattached : Attached Script.empty.commands.toList forms := fun _ => hfirst
  obtain ⟨result, stop, hmatch, hend, hresult⟩ :=
    hlined.exists_linesMatch hread.reads (Lexer.lists_toEnd _) hattached
  obtain rfl : result = script := Script.eq_of_commands (hresult.trans hcommands.symm)
  exact hmatch.ofSource_eq_ok_iff.2 ⟨rfl, hend⟩

end

end OpticScript
