import OpticScript.Grammar
import OpticScript.Proofs.Lexer.Regular
import OpticScript.Proofs.Packrat.Soundness

/-!
# Matches close their brackets

A match of a rule leaves the open brackets of the lexer as they were, but for the rules of
the single brackets (`Phrase.branches_bracket`). So a line leaves no bracket open that it
opens (`evaluate_scriptLine_openers`).
-/

namespace OpticScript

open Packrat

/-- What a match does to the open brackets of the lexer. -/
def bracketMeaning (lexer : Lexer) (r : Rule) (start stop : Nat) (a : r.Result) : Prop :=
  match r, a with
  | .token kind, t =>
    t.kind = kind ∧ (lexer.after stop).openers = t.nesting (lexer.after start).openers
  | _, _ => (lexer.after stop).openers = (lexer.after start).openers

section

attribute [local simp] Phrase.tokenBranches Phrase.scriptLine Phrase.command
  Phrase.commandParams Phrase.valueList Phrase.nextValue Phrase.keywordList
  Phrase.positionalValue Phrase.value Phrase.keyValue Phrase.action Phrase.sum Phrase.product
  Phrase.signed Phrase.power Phrase.operand Phrase.brokenNumber Phrase.binary Phrase.bracketed
  Phrase.rule Phrase.token Phrase.optional Phrase.optionalToken Phrase.many Phrase.someTokens
  Phrase.trailingComma Phrase.notBefore Bind.bind Pure.pure Branch.bind

variable {lexer : Lexer}

/-- A chain of matches that leave the open brackets alone leaves them alone. -/
theorem openers_of_chain {α : Type} {means : Nat → Nat → α → Prop} {start stop : Nat} {as : List α}
    (h : Chain means start stop as)
    (hmeans : ∀ pos stop a, means pos stop a →
      (lexer.after stop).openers = (lexer.after pos).openers) :
    (lexer.after stop).openers = (lexer.after start).openers := by
  induction h with
  | nil => rfl
  | cons head _ ih => exact ih.trans (hmeans _ _ _ head)

theorem openers_of_comma {pos stop : Nat} {t : Token}
    (h : bracketMeaning lexer (.token .comma) pos stop t) :
    (lexer.after stop).openers = (lexer.after pos).openers := by
  obtain ⟨hkind, hopeners⟩ := h
  simpa [Token.nesting, hkind] using hopeners

/-- Each branch of a rule closes the brackets that it opens. -/
theorem Phrase.branches_bracket (h : lexer.Regular) (r : Rule) :
    ∀ branch ∈ branches r, ∀ pos, branch.Yields lexer.item (bracketMeaning lexer)
      (fun a stop => bracketMeaning lexer r pos stop a) pos := by
  cases r <;> simp +contextual [branches, Branch.Yields, bracketMeaning, Token.nesting]
  case token kind =>
    intro pos t ht hkind
    have hopeners := (h.item_ok ht).openers_eq
    rwa [Token.nesting, hkind] at hopeners
  case valueList =>
    intro pos mid hfirst others stop hothers
    exact (openers_of_chain hothers fun _ _ _ hnext => hnext).trans hfirst
  case keywordList =>
    intro pos mid hleft commas stop hcommas _ _ _
    exact (openers_of_chain hcommas fun _ _ _ hcomma => openers_of_comma hcomma).trans hleft

end

/-- A match of a line leaves the open brackets as they were. -/
theorem evaluate_scriptLine_openers {lexer : Lexer} (h : lexer.Regular) (fuel pos : Nat) :
    (evaluate scriptGrammar lexer.item fuel .scriptLine pos).Ensures fun line stop =>
      line.isSome = true → (lexer.after stop).openers = (lexer.after pos).openers := by
  have hmeans : Means (bracketMeaning lexer .scriptLine)
      (evaluate scriptGrammar lexer.item fuel .scriptLine) :=
    evaluate_means (fun _ => rfl) (Phrase.branches_bracket h) fuel Rule.scriptLine
  refine (hmeans pos).imp fun line stop hline hsome => ?_
  obtain ⟨a, rfl⟩ := Option.isSome_iff_exists.1 hsome
  exact hline a rfl

end OpticScript
