import OpticScript.Proofs.Grammar.Legible
import OpticScript.Proofs.Script.Derivation

/-!
# Text forms are read back

A script that is read from a text is read from its own text form as well, if its expressions are
plain (`Script.ofSource_render`) : no operand needs parentheses, which the text form does not have,
no expression starts with a name that would be read as an action, and texts and binary64 numbers
are read back from the forms that they are written in.
-/

namespace OpticScript

/-- The expressions among the parameters of a script. -/
def Script.exprs (s : Script) : List Expr := s.commands.toList.flatMap Command.exprs

/-- The commands of a script that is read are legible as far as their expressions are plain. -/
theorem Script.isLegible_of_ofSource {name text : String} {tab : TabStop} {s : Script}
    (h : Script.ofSource (.ofText name text tab) = .ok s) :
    ∀ c ∈ s.commands.toList, (∀ e ∈ c.exprs, e.IsPlain) → c.IsLegible := by
  obtain ⟨wall, hwall, hends⟩ := (Lexer.ofSource (.ofText name text tab)).exists_endsAt
  rw [Script.ofSource_eq_verdict, Lexer.verdict_eq_ok_iff] at h
  obtain ⟨-, forms, ⟨hlines, -⟩, -, hcommands⟩ :=
    scriptOutcome_derives hends (fuelFor_le_fuel_ofLexer hwall) h
  have hscanned : AllScanned (Lexer.ofSource (.ofText name text tab)).toEnd.tokens := fun t ht =>
    Lexer.isScanned_of_mem_tokens ht
  rw [hcommands]
  exact isLegible_commandsOf (hlines.isSound hscanned)

/-- A script that is read is read back from its text form, if its expressions are plain. -/
theorem Script.ofSource_render (name name' text : String) (tab tab' : TabStop) (s : Script)
    (h : Script.ofSource (.ofText name text tab) = .ok s) (hplain : ∀ e ∈ s.exprs, e.IsPlain) :
    Script.ofSource (.ofText name' s.render tab') = .ok s := by
  refine ofSource_of_isLegible name' tab' fun c hc => isLegible_of_ofSource h c hc fun e he => ?_
  exact hplain e (List.mem_flatMap.2 ⟨c, hc, he⟩)

/-- An action, an exponent with a sign, a text under a key and a surface, written with parentheses,
blanks and a comment that the text form does not have. -/
theorem Script.ofSource_render_two_lines :
    let s : Script := { commands := #[
      { directive := "m1"
        parameters := parametersOf
          [.action "\x7bst\x7dv", .expr (.binary .power (.name "x") (.unary .minus (.name "y")))]
          [("k", .expr (.text "a"))]
        surfaces := #[parametersOf
          [.expr (.binary .subtract (.name "y") (.unary .minus (.name "z")))] []] }] }
    Script.ofSource (.ofText "" s.render) = .ok s := by
  intro s
  have hread : Script.ofSource (.ofText "" "m1 \x7b st \x7d v, (x)**-y, k='a' # n\n+ y- -z") =
      .ok s := by
    rw [Script.ofSource_eq_verdict]
    decide +kernel
  have hplain : ∀ e ∈ s.exprs, e.IsPlain := by
    have hexprs : s.exprs = [.binary .power (.name "x") (.unary .minus (.name "y")), .text "a",
        .binary .subtract (.name "y") (.unary .minus (.name "z"))] := rfl
    rw [hexprs]
    simp only [List.forall_mem_cons]
    refine ⟨⟨⟨?_, ?_⟩, ?_, ?_⟩, ⟨⟨?_, ?_⟩, ?_, ?_⟩, ⟨⟨?_, ?_⟩, ?_, ?_⟩, by simp⟩
    all_goals simp [Expr.parts, Expr.Ungrouped, Expr.isSum, Expr.isProduct, Expr.isAtom,
      Expr.leftmost, Text.IsWritable, IsMotionWord]
  exact Script.ofSource_render "" "" _ default default s hread hplain

end OpticScript
