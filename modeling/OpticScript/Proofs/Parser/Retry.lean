import OpticScript.Parser
import OpticScript.Proofs.Grammar.Order
import OpticScript.Proofs.Packrat.Memory

/-!
# A rule that is asked for again

A left recursive rule keeps a memo of failure from where it begins, or of the best match so far,
until it comes to an end. An error that ends it leaves that memo. So the rule does not give the
error again : at the same position it is answered from the memo, and this remains so whatever else
is asked of the parser (`answer_again`).
-/

namespace OpticScript.Parser

open Packrat State

/-- The parser after these requests, whatever the answers to them are. -/
def asked (requests : List Request) (parser : Parser) : Parser :=
  requests.foldl (fun parser request => (answer request parser).2) parser

section

variable {r : Rule} {parser : Parser}

theorem peek_remembers (parser : Parser) : parser.Remembers (peek parser).2 := by
  refine .of_table_eq ?_
  unfold peek
  split <;> rfl

theorem isAt_remembers (kind : TokenKind) (parser : Parser) :
    parser.Remembers (isAt kind parser).2 := by
  have h := peek_remembers parser
  unfold isAt
  rcases hpeek : peek parser with ⟨halt | token, after⟩ <;> (rw [hpeek] at h; exact h)

theorem callWith_remembers (caching : Bool) (fuel : Nat) (r : Rule) (parser : Parser) :
    parser.Remembers (callWith caching fuel r parser).2 :=
  call_remembers _ _ _ fuel r parser

theorem expectWith_remembers (caching : Bool) (fuel : Nat) (r : Rule) (parser : Parser) :
    parser.Remembers (expectWith caching fuel r parser).2 :=
  expect_remembers (callWith_remembers caching fuel r) parser

/-- No request takes a memo out of the table. -/
theorem answer_remembers (request : Request) (parser : Parser) :
    parser.Remembers (answer request parser).2 := by
  cases request with
  | mark => exact .refl parser
  | reset pos => exact .refl parser
  | peek => exact peek_remembers parser
  | get =>
    have h := peek_remembers parser
    simp only [answer, answerWith, get]
    rcases hpeek : peek parser with ⟨halt | token, after⟩ <;> (rw [hpeek] at h; exact h)
  | isAt kind => exact isAt_remembers kind parser
  | isNotAt kind =>
    have h := isAt_remembers kind parser
    simp only [answer, answerWith, isNotAt]
    rcases hat : isAt kind parser with ⟨halt | answer, after⟩ <;> (rw [hat] at h; exact h)
  | rule r => exact callWith_remembers true _ r parser
  | token kind => exact expectWith_remembers true _ (.token kind) parser
  | maybeToken kind =>
    have h := expectWith_remembers true (fuel parser) (.token kind) parser
    simp only [answer, answerWith, maybeToken]
    rcases hcall : expectWith true (fuel parser) (.token kind) parser with
      ⟨halt | _ | token, after⟩ <;> (rw [hcall] at h; exact h)
  | tokens kind least =>
    have h := repeatedly_remembers (expectWith_remembers true (fuel parser) (.token kind))
      (fuel parser) parser
    simp only [answer, answerWith, tokens]
    rcases hrun : repeatedly (expectWith true (fuel parser) (.token kind)) (fuel parser) parser with
      ⟨halt | tokens, after⟩
    · rw [hrun] at h
      exact h
    · rw [hrun] at h
      dsimp only
      split <;> exact h

theorem asked_remembers (requests : List Request) (parser : Parser) :
    parser.Remembers (asked requests parser) := by
  induction requests generalizing parser with
  | nil => exact .refl parser
  | cons request requests ih => exact (answer_remembers request parser).trans (ih _)

theorem fuel_pos (parser : Parser) : ∃ fuel', fuel parser = fuel' + 1 :=
  Nat.exists_eq_add_one.2 (by unfold fuel; omega)

/-- A left recursive rule leaves a memo where it is asked for. -/
theorem answer_memo (hrec : r.isLeftRecursive = true) (parser : Parser) :
    ((answer (.rule r) parser).2.table.get? r parser.cursor).isSome := by
  obtain ⟨fuel', hfuel⟩ := fuel_pos parser
  simp only [answer, answerWith, hfuel]
  exact call_grown_memo ((Rule.strategy_eq_grown true r).2 hrec) fuel' parser

theorem answer_of_memo (hrec : r.isLeftRecursive = true) {memo : Memo Node}
    (hget : parser.table.get? r parser.cursor = some memo) :
    (answer (.rule r) parser).1 = .ok memo.result ∧
      (answer (.rule r) parser).2.cursor = memo.stop ∧
      (answer (.rule r) parser).2.table = parser.table := by
  have hmemo : (scriptGrammar true).strategy r ≠ .plain := by
    rw [show (scriptGrammar true).strategy r = .grown from (Rule.strategy_eq_grown true r).2 hrec]
    decide
  obtain ⟨fuel', hfuel⟩ := fuel_pos parser
  simp only [answer, answerWith, hfuel]
  exact call_of_memo hmemo fuel' hget

/-- A left recursive rule that has been asked for at a position gives no error there any more,
whatever was asked in between, and even if the first answer was an error. It is answered from a
memo, and that stays. -/
theorem answer_again (hrec : r.isLeftRecursive = true) (parser : Parser)
    (requests : List Request) :
    let later := asked requests (answer (.rule r) parser).2
    ∃ memo, later.table.get? r parser.cursor = some memo ∧
      (answer (.rule r) (later.moveTo parser.cursor)).1 = .ok memo.result ∧
      (answer (.rule r) (later.moveTo parser.cursor)).2.cursor = memo.stop ∧
      (answer (.rule r) (later.moveTo parser.cursor)).2.table = later.table := by
  intro later
  have hsome := asked_remembers requests _ r parser.cursor (answer_memo hrec parser)
  obtain ⟨memo, hget⟩ := Option.isSome_iff_exists.1 hsome
  have hmoved : (later.moveTo parser.cursor).table.get? r (later.moveTo parser.cursor).cursor =
      some memo := hget
  exact ⟨memo, hget, answer_of_memo hrec hmoved⟩

end

/-- A parser in front of an integer with a zero before it. -/
def atLeadingZero : Parser := .ofLexer (.ofSource (.ofText "" "01"))

/-- The error at that integer. -/
def leadingZero : Diagnostic :=
  { cause := .leadingZeros, source := "", line := 1, startColumn := 1, endColumn := 2, text := "0",
    context := some "01" }

theorem answer_again_leadingZero :
    Rule.isLeftRecursive .sum = true ∧
      (answer (.rule .sum) atLeadingZero).1 = .error (.fatal (.located leadingZero)) ∧
      ∃ result, (answer (.rule .sum)
        ((answer (.rule .sum) atLeadingZero).2.moveTo atLeadingZero.cursor)).1 = .ok result := by
  have herror : (answer (.rule .sum) atLeadingZero).1 = .error (.fatal (.located leadingZero)) :=
    rfl
  obtain ⟨memo, -, hanswer, -⟩ := answer_again (r := .sum) rfl atLeadingZero []
  exact ⟨rfl, herror, memo.result, hanswer⟩

/-- Where a sum has ended in an error, it fails to match when it is asked for again. -/
theorem error_then_mismatch :
    (answer (.rule .sum) atLeadingZero).1 = .error (.fatal (.located leadingZero)) ∧
      (answer (.rule .sum) ((answer (.rule .sum) atLeadingZero).2.moveTo 0)).1 = .ok none := by
  constructor <;> rfl

end OpticScript.Parser
