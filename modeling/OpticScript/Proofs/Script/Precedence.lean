import OpticScript.Proofs.Parser.Blame

/-!
# Errors of the lexer come first

A script whose text the lexer finds wrong is never read, and the reason is the error of the
lexer unless the grammar refuses a line (`Script.ofSource_cases`). That no rule fits a line
is the reason only if there is nothing wrong with the whole text. So much is said of the
tokens of a text and of its script in the words of the errors (`Script.ofText_precedence`).
-/

namespace OpticScript

open Packrat

/-- The wordings of what the grammar finds wrong with a line. -/
def Cause.grammarMessages : List String :=
  ["secondary surface missing primary surface", "missing value",
   "leading zeros in integers are not permitted", "invalid number syntax"]

theorem Cause.Grammatical.message_mem {cause : Cause} (h : cause.Grammatical) :
    cause.message ∈ Cause.grammarMessages := by
  cases h <;> unfold Cause.message Cause.grammarMessages <;> simp

/-- Only a line that no rule fits is called a syntax error. -/
theorem Cause.message_ne {cause : Cause} (h : cause.Lexical ∨ cause.Grammatical) :
    cause.message ≠ "syntax error" := by
  rcases h with h | h
  · intro heq
    have hhead := congrArg (fun message => message.toList.head?) heq
    cases h <;> unfold Cause.message at hhead <;> simp at hhead
  · cases h <;> unfold Cause.message <;> simp

theorem Cause.ne_unrecognized {cause : Cause} (h : cause.Lexical ∨ cause.Grammatical) :
    cause ≠ .unrecognized := by
  rintro rfl
  rcases h with h | h <;> cases h

/-- What becomes of a text when the lexer has been over all of it. -/
theorem Script.ofSource_cases (name text : String) (tab : TabStop) :
    let scan := (Lexer.ofSource (.ofText name text tab)).toEnd
    let result := Script.ofSource (.ofText name text tab)
    (∃ d, result = .error (.fatal (.located d)) ∧ d.cause.Grammatical) ∨
    match scan.failure with
    | some e => ∃ d, e = .located d ∧ d.cause.Lexical ∧ result = .error (.fatal e)
    | none => (∃ script, result = .ok script) ∨
        ∃ d, result = .error (.fatal (.located d)) ∧ d.cause = .unrecognized := by
  intro scan result
  obtain ⟨wall, hwall, hends⟩ := (Lexer.ofSource (.ofText name text tab)).exists_endsAt
  have hregular := Lexer.regular_ofSource name text tab
  have hconcludes : Lexer.Concludes _ _ result :=
    Script.ofSource_concludes name text tab (Nat.le_refl _)
  generalize result = result' at hconcludes
  cases hconcludes with
  | script script h =>
    have h : scan.failure = none := h
    rw [h]
    exact .inr (.inl ⟨script, rfl⟩)
  | @lexical e h =>
    have hfailure : scan.failure = some e := h
    obtain ⟨d, rfl, hcause⟩ := hregular.item_lexical ((hends.toEnd_eq.2.1 e).1 h)
    rw [hfailure]
    exact .inr ⟨d, rfl, hcause, rfl⟩
  | refused h => exact .inl ⟨_, rfl, h⟩
  | stuck h =>
    have hfailure : scan.failure = none := h.failure_eq
    obtain ⟨n, last, -, -, -, hrejection⟩ := Lexer.rejection_eq hends h
    rw [hfailure, hrejection]
    exact .inr (.inr ⟨_, rfl, rfl⟩)

section

variable {name text : String} {tab : TabStop}

/-- Every error of a text is at a place of it. -/
theorem Script.ofSource_located {halt : Halt ScriptError}
    (h : Script.ofSource (.ofText name text tab) = .error halt) :
    ∃ d, halt = .fatal (.located d) ∧
      (d.cause.Lexical ∨ d.cause.Grammatical ∨ d.cause = .unrecognized) := by
  rcases Script.ofSource_cases name text tab with ⟨d, hd, hcause⟩ | hcases
  · exact ⟨d, Except.error.inj (h.symm.trans hd), .inr (.inl hcause)⟩
  · rcases hfailure : (Lexer.ofSource (.ofText name text tab)).toEnd.failure with _ | e
    · rw [hfailure] at hcases
      rcases hcases with ⟨script, hscript⟩ | ⟨d, hd, hcause⟩
      · simp [h] at hscript
      · exact ⟨d, Except.error.inj (h.symm.trans hd), .inr (.inr hcause)⟩
    · rw [hfailure] at hcases
      obtain ⟨d, rfl, hcause, hd⟩ := hcases
      exact ⟨d, Except.error.inj (h.symm.trans hd), .inl hcause⟩

/-- A token is blamed only if the lexer finds nothing wrong with the text. -/
theorem Script.toEnd_failure_eq_none {d : Diagnostic}
    (h : Script.ofSource (.ofText name text tab) = .error (.fatal (.located d)))
    (hcause : d.cause = .unrecognized) :
    (Lexer.ofSource (.ofText name text tab)).toEnd.failure = none := by
  rcases Script.ofSource_cases name text tab with ⟨d', hd, hgrammatical⟩ | hcases
  · obtain rfl : d = d' := by simpa [h] using hd
    exact absurd hcause (Cause.ne_unrecognized (.inr hgrammatical))
  · rcases hfailure : (Lexer.ofSource (.ofText name text tab)).toEnd.failure with _ | e
    · rfl
    · rw [hfailure] at hcases
      obtain ⟨d', rfl, hlexical, hd⟩ := hcases
      obtain rfl : d = d' := by simpa [h] using hd
      exact absurd hcause (Cause.ne_unrecognized (.inl hlexical))

end

/-- If there are no tokens of a text, it is no script for the same reason or for one that the
grammar gives. If there are, it is a script or no rule fits a line, or the grammar gives a
reason. -/
theorem Script.ofText_precedence (name text : String) :
    match tokenize name text with
    | .error e => ∃ d, Script.ofText name text = .error (.fatal (.located d)) ∧
        d.message ≠ "syntax error" ∧ (e = .located d ∨ d.message ∈ Cause.grammarMessages)
    | .ok _ => (∃ script, Script.ofText name text = .ok script) ∨
        ∃ d, Script.ofText name text = .error (.fatal (.located d)) ∧
          (d.message = "syntax error" ∨ d.message ∈ Cause.grammarMessages) := by
  have hcases := Script.ofSource_cases name text default
  have htokenize : tokenize name text =
      match (Lexer.ofSource (.ofText name text)).toEnd.failure with
      | some e => .error e
      | none => .ok (Lexer.ofSource (.ofText name text)).toEnd.tokens := rfl
  rw [htokenize]
  dsimp only at hcases
  rcases hfailure : (Lexer.ofSource (.ofText name text)).toEnd.failure with _ | e
  · rw [hfailure] at hcases
    rcases hcases with ⟨d, hd, hcause⟩ | ⟨script, hscript⟩ | ⟨d, hd, hcause⟩
    · exact .inr ⟨d, hd, .inr hcause.message_mem⟩
    · exact .inl ⟨script, hscript⟩
    · exact .inr ⟨d, hd, .inl (by rw [Diagnostic.message, hcause]; rfl)⟩
  · rw [hfailure] at hcases
    rcases hcases with ⟨d, hd, hcause⟩ | ⟨d, rfl, hcause, hd⟩
    · exact ⟨d, hd, Cause.message_ne (.inr hcause), .inr hcause.message_mem⟩
    · exact ⟨d, hd, Cause.message_ne (.inl hcause), .inl rfl⟩

end OpticScript
