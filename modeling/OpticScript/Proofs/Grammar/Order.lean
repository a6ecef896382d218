import OpticScript.Grammar
import OpticScript.Proofs.Packrat.Agreement

/-!
# The order of the script rules

The rules of the script grammar are ranked (`scriptRanking`) : a sum begins with a
product, a product with a signed operand, and so on down to the single tokens. Each of
them takes a token when it matches.

No rule takes the end marker except the rule of that token (`scriptGrammar_confined`), and
within a line none takes a newline (`scriptGrammar_confined_line`). So the end marker is a
wall for every rule, and a newline is one for the rules within a line; the line itself
takes it as its last token (`Phrase.scriptLine_closes`).
-/

namespace OpticScript

open Packrat

/-- The rules that a rule begins with have a lower rank. -/
def Rule.rank : Rule → Nat
  | token _ => 0
  | brokenNumber | action | keyValue | nextValue | command => 1
  | operand | keywordList | scriptLine => 2
  | power => 3
  | signed => 4
  | product => 5
  | sum => 6
  | value => 7
  | positionalValue => 8
  | valueList => 9
  | commandParams => 10

/-- One more than the highest rank. -/
def Rule.height : Nat := 11

theorem Rule.rank_lt_height (r : Rule) : r.rank < Rule.height := by
  cases r <;> simp [rank, height]

theorem Rule.strategy_eq_grown (caching : Bool) (r : Rule) :
    r.strategy caching = .grown ↔ r.isLeftRecursive = true := by
  unfold Rule.strategy
  cases r.isLeftRecursive <;> cases caching <;> simp

section

attribute [local simp] Phrase.tokenBranches Phrase.scriptLine Phrase.command
  Phrase.commandParams Phrase.valueList Phrase.nextValue Phrase.keywordList
  Phrase.positionalValue Phrase.value Phrase.keyValue Phrase.action Phrase.sum Phrase.product
  Phrase.signed Phrase.power Phrase.operand Phrase.brokenNumber Phrase.binary Phrase.bracketed
  Phrase.rule Phrase.token Phrase.optional Phrase.optionalToken Phrase.many Phrase.someTokens
  Phrase.trailingComma Phrase.notBefore Bind.bind Pure.pure Branch.bind

theorem Phrase.branch_ranked (caching : Bool) (r : Rule) : ∀ branch ∈ Phrase.branches r,
    branch.Ranked (scriptGrammar caching) Rule.rank (fun _ => true) r false := by
  have hgrown : r.isLeftRecursive = true → (scriptGrammar caching).strategy r = .grown :=
    (Rule.strategy_eq_grown caching r).2
  cases r <;> simp_all [Phrase.branches, Branch.Ranked, Grammar.MayCall, Rule.rank,
    Rule.isLeftRecursive]

/-- The rules of what stands in a line before its newline. -/
def Rule.isWithinLine : Rule → Bool
  | token kind => kind ≠ .newline ∧ kind ≠ .endMarker
  | scriptLine => false
  | _ => true

theorem Phrase.branch_confined_line {r : Rule} (hr : r.isWithinLine = true) :
    ∀ branch ∈ Phrase.branches r,
      branch.Confined (fun t => t.kind = .newline ∨ t.kind = .endMarker)
        (fun r => r.isWithinLine = true) := by
  cases r <;> simp_all [Phrase.branches, Branch.Confined, Rule.isWithinLine]
  case token kind =>
    rintro item (h | h) <;> simp [h, Ne.symm hr.1, Ne.symm hr.2]
  case keyValue =>
    intro name equals value
    cases value <;> trivial

/-- A line takes a newline at its end only. -/
theorem Phrase.scriptLine_closes : ∀ branch ∈ Phrase.branches .scriptLine,
    branch.Closes (fun r => r.isWithinLine = true) (fun r => r = .token .newline) := by
  simp [Phrase.branches, Branch.Closes, Rule.isWithinLine]

theorem Phrase.branch_confined {r : Rule} (hr : r ≠ .token .endMarker) :
    ∀ branch ∈ Phrase.branches r,
      branch.Confined (fun t => t.kind = .endMarker) (fun r => r ≠ .token .endMarker) := by
  cases r <;> simp_all [Phrase.branches, Branch.Confined]
  case token kind => exact fun _ _ => Ne.symm hr
  case keyValue =>
    intro name equals value
    cases value <;> trivial

end

/-- The rules by rank. Every rule takes a token. -/
def scriptRanking (caching : Bool) : (scriptGrammar caching).Ranking where
  rank := Rule.rank
  consumes _ := true
  ranked := Phrase.branch_ranked caching

/-- No rule but that of the end marker takes an end marker. -/
theorem scriptGrammar_confined (caching : Bool) :
    (scriptGrammar caching).Confined (fun t => t.kind = .endMarker)
      (fun r => r ≠ .token .endMarker) :=
  fun _ hr => Phrase.branch_confined hr

/-- Within a line no rule takes a newline. -/
theorem scriptGrammar_confined_line (caching : Bool) :
    (scriptGrammar caching).Confined (fun t => t.kind = .newline ∨ t.kind = .endMarker)
      (fun r => r.isWithinLine = true) :=
  fun _ hr => Phrase.branch_confined_line hr

end OpticScript
