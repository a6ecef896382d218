import OpticScript.Proofs.Parser.Related

/-!
# Scripts further down

If a lexer gives from some token on what another one gives, so many lines further down
(`Lexer.Below`), then its tokens and errors from there on are related to those of the other
one (`Lexer.Below.related`), and so the conclusion is the same, an error being as much further
down.

What ends the lines is an error that they have looked at (`Lexer.linesOutcome_item`) or a
complaint about a token that they have looked at (`Lexer.linesOutcome_complaint`).
-/

namespace OpticScript

open Packrat Packrat.Outcome

/-- Tokens of which the second one is so many lines further down. -/
def Token.Lower (k : Nat) (t t' : Token) : Prop := 1 ≤ t.line ∧ t' = t.lower k

/-- Errors of the lexer of which the second one is so many lines further down. -/
def ScriptError.Lower (k : Nat) (e e' : ScriptError) : Prop := e.Lexical ∧ e' = e.lower k

theorem Token.adjoins_lower (k : Nat) (first second : Token) :
    (first.lower k).adjoins (second.lower k) = first.adjoins second := by
  have hline : decide (first.line + k = second.line + k) = decide (first.line = second.line) :=
    decide_eq_decide.2 (by omega)
  exact congrArg (· && _) hline

/-- The grammar does not look at lines. -/
theorem Token.indistinct_lower (k : Nat) : Token.Indistinct (Token.Lower k) where
  kind_eq := by rintro t _ ⟨-, rfl⟩; rfl
  text_eq := by rintro t _ ⟨-, rfl⟩ -; rfl
  literal_eq := by rintro t _ ⟨-, rfl⟩ -; rfl
  adjoins_eq := by
    rintro first _ second _ ⟨-, rfl⟩ ⟨-, rfl⟩ - -
    exact adjoins_lower k first second

/-- What comes further down is related to what comes above. -/
theorem Lexer.Below.related {k : Nat} {lexer lexer' : Lexer} (h : Below k lexer lexer')
    (hregular : lexer.Regular) :
    lexer.Related (Token.Lower k) (ScriptError.Lower k) (fun e e' => e' = e.lower k) lexer' where
  indistinct := Token.indistinct_lower k
  items n := by
    rcases hitem : lexer.item n with e | _ | t
    · rw [h.error n e hitem]
      exact ⟨hregular.item_lexical hitem, rfl⟩
    · exact absurd hitem (item_ne_none n)
    · rw [h.token n t hitem]
      exact .some ⟨hregular.item_line_pos hitem, rfl⟩
  blame n cause t t' := by
    rintro ⟨hpos, rfl⟩
    rw [h.blame n cause t hpos]
    rfl
  error := by
    rintro e _ ⟨-, rfl⟩
    rfl

/-! ## What can be wrong -/

/-- An error of the lexer that ends the lines is one that they have looked at. -/
theorem Lexer.linesOutcome_item {lexer : Lexer} {fuel rounds : Nat} {script : Script} {pos : Nat}
    {e : ScriptError} :
    let o := linesOutcome (lexer.comesTo fuel .scriptLine) rounds script pos
    o.answer = .error (.item e) → ∃ i < o.reach, lexer.item i = .error e := by
  intro o he
  obtain ⟨p, hp, hreach⟩ := linesOutcome_item_error he
  obtain ⟨i, hi, hitem⟩ := evaluate_item_error hp
  exact ⟨i, hi.trans_le hreach, hitem⟩

/-- Tokens that are equal and that a lexer gives among so many. -/
def Lexer.Looks (lexer : Lexer) (bound : Nat) (t t' : Token) : Prop :=
  t' = t ∧ ∃ i < bound, lexer.item i = .ok (some t)

theorem Lexer.indistinct_looks (lexer : Lexer) (bound : Nat) :
    Token.Indistinct (lexer.Looks bound) where
  kind_eq := by rintro t _ ⟨rfl, -⟩; rfl
  text_eq := by rintro t _ ⟨rfl, -⟩ -; rfl
  literal_eq := by rintro t _ ⟨rfl, -⟩ -; rfl
  adjoins_eq := by rintro first _ second _ ⟨rfl, -⟩ ⟨rfl, -⟩ - -; rfl

/-- What the grammar complains of is a token that the lines have looked at. -/
theorem Lexer.linesOutcome_complaint {lexer : Lexer} {fuel rounds : Nat} {script : Script}
    {pos : Nat} {blame : Blame} :
    let o := linesOutcome (lexer.comesTo fuel .scriptLine) rounds script pos
    o.answer = .error (.complaint blame) → blame.cause.Grammatical ∧
      (blame.token.kind ≠ .newline ∧ blame.token.kind ≠ .endMarker) ∧
      ∃ i < o.reach, lexer.item i = .ok (some blame.token) := by
  intro o hblame
  let like := relating (lexer.Looks o.reach) fun _ _ => True
  have hitems : ∀ i, i < o.reach → like.Items (lexer.item i) (lexer.item (i + 0)) := by
    intro i hi
    rw [Nat.add_zero]
    rcases hitem : lexer.item i with e | _ | t
    · exact trivial
    · exact .none
    · exact .some ⟨rfl, i, hi, hitem⟩
  have hline : ∀ pos, like.Outcomes 0 o.reach (Option.Rel (Line.Related (lexer.Looks o.reach)))
      (lexer.comesTo fuel .scriptLine pos) (lexer.comesTo fuel .scriptLine (pos + 0)) := fun pos =>
    evaluate_alike (scriptGrammar_related (lexer.indistinct_looks _) _) hitems (Nat.le_refl fuel)
      Rule.scriptLine pos
  have hafter : Script.empty.After script script := by simp [Script.After, Script.empty]
  have hlines : like.Outcomes 0 o.reach Script.empty.After o o :=
    linesOutcome_related hline (Nat.le_refl rounds) hafter (.inl rfl)
  rcases hlines with hlt | hout | ⟨halike, -, -⟩
  · exact absurd hlt (Nat.lt_irrefl _)
  · exact absurd (by simp [Finishes, hblame]) hout
  · rw [hblame] at halike
    obtain ⟨-, hgrammatical, ⟨-, hlooks⟩, hkind⟩ :
      blame.Related (lexer.Looks o.reach) blame := halike
    exact ⟨hgrammatical, hkind, hlooks⟩

end OpticScript
