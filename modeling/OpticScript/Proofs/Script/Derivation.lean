import Mathlib.Data.List.ModifyLast
import OpticScript.Proofs.Grammar.Soundness
import OpticScript.Proofs.Parser.Outcome

/-!
# Scripts that are read are derived

A script that is read from a source is the abstract syntax of a derivation of its tokens
from the start of the grammar (`ofSource_derives`). The tokens are those that the lexer
lists up to the end marker, so nothing is left out at the end; and the commands are those
of the lines in their order (`completed`).
-/

namespace OpticScript

open Packrat Packrat.Outcome

/-! ## Lines -/

/-- Commands that go on with the given lines : the surfaces before the next command are those
of the last one. -/
def completed (commands : List Command) (forms : List LineForm) : List Command :=
  commands.modifyLast (fun c => { c with surfaces := c.surfaces ++ (surfacesOf forms).toArray })
    ++ commandsOf forms

/-- No surface comes before a command. -/
def Attached (commands : List Command) (forms : List LineForm) : Prop :=
  commands = [] → surfacesOf forms = []

@[simp] theorem completed_nil (forms : List LineForm) : completed [] forms = commandsOf forms :=
  rfl

theorem completed_concat (commands : List Command) (c : Command) (forms : List LineForm) :
    completed (commands ++ [c]) forms =
      commands ++ { c with surfaces := c.surfaces ++ (surfacesOf forms).toArray }
        :: commandsOf forms := by
  simp [completed, List.modifyLast_concat]

theorem completed_no_lines (commands : List Command) : completed commands [] = commands := by
  rcases List.eq_nil_or_concat commands with rfl | ⟨commands, c, rfl⟩
  · rfl
  · rw [List.concat_eq_append, completed_concat]
    simp [surfacesOf, commandsOf]

theorem commands_addSurface {script script' : Script} {surface : Parameters}
    (h : script.addSurface? surface = some script') :
    ∃ commands c, script.commands.toList = commands ++ [c] ∧
      script'.commands.toList = commands ++ [c.addSurface surface] := by
  unfold Script.addSurface? at h
  rcases List.eq_nil_or_concat script.commands.toList with hnil | ⟨commands, c, hcommands⟩
  · have : script.commands = #[] := by simpa using hnil
    simp [this] at h
  · rw [List.concat_eq_append] at hcommands
    have hback : script.commands.back? = some c := by
      rw [← Array.getLast?_toList, hcommands]
      simp
    rw [hback] at h
    obtain rfl := Option.some.inj h
    exact ⟨commands, c, hcommands, by simp [hcommands]⟩

/-- A line is added to the script as its form says. -/
theorem addLine_completed {script script' : Script} {line : Line} {form : LineForm}
    (hform : form.Gives line) (h : Parser.addLine script line = .ok script')
    {forms : List LineForm} (hattached : Attached script'.commands.toList forms) :
    completed script'.commands.toList forms = completed script.commands.toList (form :: forms) ∧
      Attached script.commands.toList (form :: forms) := by
  cases form with
  | blank =>
    rw [hform] at h
    obtain rfl : script = script' := Except.ok.inj h
    exact ⟨rfl, hattached⟩
  | command directive args pairs =>
    rw [hform] at h
    obtain rfl := Except.ok.inj h
    refine ⟨?_, fun _ => rfl⟩
    rw [Script.push, Array.toList_push, completed_concat]
    rcases List.eq_nil_or_concat script.commands.toList with hnil | ⟨commands, c, hcommands⟩
    · simp [hnil, commandsOf]
    · rw [hcommands, List.concat_eq_append, completed_concat]
      simp [surfacesOf, commandsOf]
  | surface args pairs =>
    obtain ⟨marker, rfl⟩ := hform
    unfold Parser.addLine at h
    dsimp only at h
    split at h
    · rename_i script'' hadd
      obtain rfl := Except.ok.inj h
      obtain ⟨commands, c, hcommands, hcommands'⟩ := commands_addSurface hadd
      refine ⟨?_, fun hnil => by simp [hcommands] at hnil⟩
      rw [hcommands, hcommands', completed_concat, completed_concat]
      simp [Command.addSurface, surfacesOf, commandsOf]
    · simp at h

/-- The lines that are read are derived, and the script is completed with them. -/
theorem linesOutcome_derives {tokens : List Token}
    {line : Nat → Outcome Blame ScriptError (Option Line)}
    (hline : Means (scriptMeaning tokens .scriptLine) line) (hback : Returns line) :
    ∀ rounds script pos, (linesOutcome line rounds script pos).Ensures fun script' stop =>
      ∃ forms, DerivesLines (tokens.drop pos) (tokens.drop stop) forms ∧
        script'.commands.toList = completed script.commands.toList forms ∧
        Attached script.commands.toList forms
  | 0, _, _ => ensures_fail
  | rounds + 1, script, pos => by
    refine ensures_andThen.2 fun next hnext => ?_
    cases next with
    | none =>
      rw [hback pos none hnext rfl]
      exact ensures_here.2 ⟨[], .nil _, (completed_no_lines _).symm, fun _ => rfl⟩
    | some next =>
      obtain ⟨form, hform, hgives⟩ := hline pos _ hnext next rfl
      dsimp only
      cases hadd : Parser.addLine script next with
      | error blame => exact ensures_fail
      | ok script' =>
        refine (linesOutcome_derives hline hback rounds script' _).imp
          fun script'' stop ⟨forms, hforms, hcommands, hattached⟩ => ?_
        obtain ⟨hcompleted, hattached⟩ := addLine_completed hgives hadd hattached
        exact ⟨form :: forms, .cons hform hforms, hcommands.trans hcompleted, hattached⟩

/-! ## Scripts that are read -/

section

variable {lexer : Lexer} {fuel wall : Nat}

/-- Up to the end the items of a lexer are the tokens that it lists. -/
theorem getElem?_toEnd_tokens (h : lexer.EndsAt wall) {mark : Token}
    (hmark : lexer.item wall = .ok (some mark)) {i : Nat} (hi : i ≤ wall) :
    lexer.item i = .ok lexer.toEnd.tokens[i]? := by
  have htokens := h.toEnd_eq.2.2
  rcases Nat.lt_or_eq_of_le hi with hlt | rfl
  · obtain ⟨t, ht, -⟩ := h.not_wall i hlt
    rw [ht, (htokens i t).2 ⟨hi, ht⟩]
  · rw [hmark, (htokens i mark).2 ⟨hi, hmark⟩]

theorem linesOutcome_toEnd (h : lexer.EndsAt wall) {mark : Token}
    (hmark : lexer.item wall = .ok (some mark)) (hfuel : fuelFor wall 0 ≤ fuel) :
    ∀ rounds script pos, pos ≤ wall →
      linesOutcome (lexer.comesTo fuel .scriptLine) rounds script pos =
        linesOutcome (evaluate scriptGrammar (fun i => .ok lexer.toEnd.tokens[i]?) fuel .scriptLine)
          rounds script pos
  | 0, _, _, _ => rfl
  | rounds + 1, script, pos, hpos => by
    have hupTo := Lexer.comesTo_upTo h.wall fuel (r := .scriptLine) (by simp) hpos
    have hfinishes : (lexer.comesTo fuel .scriptLine pos).Finishes :=
      Lexer.comesTo_finishes h.wall hpos (by unfold fuelFor at *; omega)
    have hline : evaluate scriptGrammar (fun i => .ok lexer.toEnd.tokens[i]?) fuel .scriptLine pos =
        lexer.comesTo fuel .scriptLine pos := by
      refine evaluate_congr hfinishes fun i hi => ?_
      have hreach := hupTo.reach_le
      exact (getElem?_toEnd_tokens h hmark (by unfold Lexer.comesTo at hreach; omega)).symm
    rw [linesOutcome, linesOutcome, hline]
    refine andThen_congr fun next hnext => ?_
    cases next with
    | none => rfl
    | some next =>
      dsimp only
      cases Parser.addLine script next with
      | error blame => rfl
      | ok script' =>
        exact linesOutcome_toEnd h hmark hfuel rounds script' _ (hupTo.stop_le _ hnext)

/-- Lines and an end marker after them : the tokens of the lexer are derived. -/
theorem scriptOutcome_derives (h : lexer.EndsAt wall) (hfuel : fuelFor wall 0 ≤ fuel)
    {script : Script} (hscript : (lexer.scriptOutcome fuel 0).answer = .ok (some script)) :
    lexer.toEnd.failure = none ∧ ∃ forms, DerivesScript lexer.toEnd.tokens forms ∧
      surfacesOf forms = [] ∧ script.commands.toList = commandsOf forms := by
  have hzero : fuel ≠ 0 := by
    unfold fuelFor at hfuel
    omega
  obtain ⟨hlines, mark, hmark, hkind⟩ := (Lexer.scriptOutcome_eq_some_iff hzero).1 hscript
  -- no line takes the end marker, so the lines stop where the tokens end
  have hstop := (linesOutcome_upTo h.wall fuel .empty 0 (Nat.zero_le wall)).stop_le _ hlines
  have hend : (linesOutcome (lexer.comesTo fuel .scriptLine) fuel .empty 0).stop = wall :=
    h.eq_of_endMarker hstop hmark hkind
  rw [hend] at hmark
  obtain ⟨hfinal, hfailure, htokens⟩ := h.toEnd_eq
  have hitems : ∀ i, (fun i => .ok lexer.toEnd.tokens[i]? :
      Nat → Except ScriptError (Option Token)) i = .ok lexer.toEnd.tokens[i]? := fun _ => rfl
  have hderives := linesOutcome_derives (evaluate_derives hitems fuel Rule.scriptLine)
    (evaluate_returns (fun _ => rfl) fuel Rule.scriptLine) fuel .empty 0
  rw [← linesOutcome_toEnd h hmark hfuel fuel .empty 0 (Nat.zero_le wall)] at hderives
  obtain ⟨forms, hforms, hcommands, hattached⟩ := hderives _ hlines
  have hdrop : lexer.toEnd.tokens.drop wall = [mark] := by
    rw [drop_eq_cons ((htokens wall mark).2 ⟨Nat.le_refl wall, hmark⟩),
      List.drop_eq_nil_of_le]
    rw [← List.getElem?_eq_none_iff]
    by_contra hne
    obtain ⟨t, ht⟩ := Option.ne_none_iff_exists'.1 hne
    have := ((htokens _ t).1 ht).1
    omega
  rw [hend, hdrop] at hforms
  refine ⟨?_, forms, .lines hforms hkind, hattached rfl, hcommands⟩
  by_contra hne
  obtain ⟨e, he⟩ := Option.ne_none_iff_exists'.1 hne
  simp [(hfailure e).1 he] at hmark

end

/-- A script that is read from a source is the abstract syntax of a derivation of its tokens :
one command for each line led by a name, in their order, with the surfaces of the lines
between it and the next one, and no other line. -/
theorem ofSource_derives (source : Source) (script : Script)
    (h : Script.ofSource source = .ok script) :
    let scan := (Lexer.ofSource source).toEnd
    scan.failure = none ∧ ∃ forms, DerivesScript scan.tokens forms ∧
      surfacesOf forms = [] ∧ script.commands.toList = commandsOf forms ∧
      script.directives = forms.filterMap LineForm.directive? ∧
      script.commands.toList.flatMap (fun command => command.surfaces.toList) =
        forms.filterMap LineForm.surface? := by
  obtain ⟨wall, hwall, hends⟩ := (Lexer.ofSource source).exists_endsAt
  rw [Script.ofSource_eq_verdict, Lexer.verdict_eq_ok_iff] at h
  obtain ⟨hfailure, forms, hderives, hattached, hcommands⟩ :=
    scriptOutcome_derives hends (fuelFor_le_fuel_ofLexer hwall) h
  refine ⟨hfailure, forms, hderives, hattached, hcommands, ?_, ?_⟩
  · rw [Script.directives, hcommands, directive_commandsOf]
  · rw [hcommands, ← surfaces_commandsOf, hattached, List.nil_append]

/-- A command with a value and a key, and a surface in an unterminated line. -/
theorem ofSource_derives_two_lines :
    let script : Script := { commands := #[
      { directive := "m", parameters := parametersOf [.expr (.name "x")] [("k", .expr (.name "y"))],
        surfaces := #[parametersOf [.expr (.name "z")] []] }] }
    Script.ofSource (.ofText "" "m x, k=y\n+z") = .ok script ∧
      ∃ forms, DerivesScript (Lexer.ofSource (.ofText "" "m x, k=y\n+z")).toEnd.tokens forms ∧
        script.commands.toList = commandsOf forms := by
  intro script
  have h : Script.ofSource (.ofText "" "m x, k=y\n+z") = .ok script := by
    rw [Script.ofSource_eq_verdict]
    decide +kernel
  obtain ⟨-, forms, hderives, -, hcommands, -⟩ := ofSource_derives _ script h
  exact ⟨h, forms, hderives, hcommands⟩

end OpticScript
