import OpticScript.Proofs.Grammar.Rules
import OpticScript.Proofs.Packrat.Faults

/-!
# Where the grammar ends a parse

A fault of a rule is one of the rules that begin with it : what is wrong with the first value behind
a directive ends the line (`faults_scriptLine`), whatever its alternatives are. A value ends the
parse at a number that the lexer finds an error behind (`faults_value_number`), and at two numbers
with nothing between them (`faults_value_adjoining`), because no action begins with a number and an
operand looks at the token behind it.
-/

namespace OpticScript

open Packrat Packrat.Branch

section

variable {items : Nat → Except ScriptError (Option Token)} {pos : Nat} {t : Token}
  {fault : Fault Blame ScriptError} {e : ScriptError}

/-- A rule ends with this fault if there is enough fuel. -/
abbrev Rule.Faults (r : Rule) (items : Nat → Except ScriptError (Option Token)) (pos : Nat)
    (fault : Fault Blame ScriptError) : Prop :=
  Packrat.Faults (evaluate scriptGrammar items) r pos fault

/-- A rule that is not grown ends as its branches do. -/
theorem Rule.faults_of_branches {r : Rule} (hr : r.isLeftRecursive = false)
    (h : Branches.Faults items (evaluate scriptGrammar items) (Phrase.branches r) pos fault) :
    r.Faults items pos fault := by
  refine Packrat.faults_of_branches (fun hgrown => ?_) h
  simp [(Rule.strategy_eq_grown true r).1 hgrown] at hr

theorem faults_token (kind : TokenKind) (h : items pos = .error e) :
    (Rule.token kind).Faults items pos (.item e) :=
  Rule.faults_of_branches rfl (Branches.faults_head (faults_take_error h))

/-! ## Values -/

theorem faults_action (h : items pos = .error e) : Rule.action.Faults items pos (.item e) := by
  have htoken :
    Packrat.Faults (seededWith scriptGrammar items .action pos { result := none, stop := pos })
      (.token .leftBrace) pos (.item e) :=
        faults_unseeded (fun heq => by simp at heq) (faults_token .leftBrace h)
  exact faults_of_seeded rfl (Branches.faults_tail (matches_call_none (matches_seed _))
    (Branches.faults_head (faults_call htoken)))

/-- A value is first of all looked for as an action. -/
theorem faults_value (h : items pos = .error e) : Rule.value.Faults items pos (.item e) :=
  Rule.faults_of_branches rfl (Branches.faults_head (faults_call (faults_action h)))

/-- An operand in the place of a number is the first part of a value there. -/
theorem faults_value_operand (ht : items pos = .ok (some t)) (hnumber : t.kind = .number)
    (h : Rule.operand.Faults items pos fault) : Rule.value.Faults items pos fault := by
  have hsign : ∀ kind ≠ .number, (Rule.token kind).Matches items pos none pos :=
    fun kind hkind => matches_token_none ⟨t, ht, fun heq => hkind (heq.symm.trans hnumber)⟩
  have hpower : Rule.power.Faults items pos fault :=
    Rule.faults_of_branches rfl (Branches.faults_head (faults_call h))
  have hsigned : Rule.signed.Faults items pos fault :=
    Rule.faults_of_branches rfl (Branches.faults_tail (matches_call_none (hsign .plus (by decide)))
      (Branches.faults_tail (matches_call_none (hsign .minus (by decide)))
      (Branches.faults_head (faults_call hpower))))
  have hsum : Rule.sum.Faults items pos fault :=
    isChainRule_sum.faults (isChainRule_product.faults hsigned)
  have haction : Rule.action.Matches items pos none pos :=
    matches_action_none ht (by simp [hnumber]) (by simp [hnumber])
  exact Rule.faults_of_branches rfl (Branches.faults_tail (matches_call_none haction)
    (Branches.faults_head (faults_call hsum)))

/-- An operand looks at what comes behind a number. -/
theorem faults_value_number (ht : items pos = .ok (some t)) (hnumber : t.kind = .number)
    (h : items (pos + 1) = .error e) : Rule.value.Faults items pos (.item e) := by
  have hparen : (Rule.token .leftParen).Matches items pos none pos :=
    matches_token_none ⟨t, ht, by simp [hnumber]⟩
  exact faults_value_operand ht hnumber (Rule.faults_of_branches rfl
    (Branches.faults_tail (matches_call_none hparen)
    (Branches.faults_head (faults_call_next (matches_token ht hnumber) (faults_look_error h)))))

/-- What two numbers with nothing between them are blamed for. -/
def brokenBlame (first second : Token) : Blame :=
  if first.bothIntegers second then { cause := .leadingZeros, token := first }
  else { cause := .invalidNumberForm, token := second }

theorem matches_brokenNumber {second : Token} (ht : items pos = .ok (some t))
    (hnumber : t.kind = .number)
    (hnext : items (pos + 1) = .ok (some second)) (hnumber' : second.kind = .number)
    (hadjoins : t.adjoins second = true) :
    Rule.brokenNumber.Matches items pos (some (brokenBlame t second)) (pos + 1 + 1) :=
  Rule.matches_of_branches rfl (Branches.match_head (matches_call (matches_token ht hnumber)
    (matches_call (matches_token hnext hnumber') (matches_require hadjoins (matches_done _ _)))))

theorem faults_value_adjoining {second : Token} (ht : items pos = .ok (some t))
    (hnumber : t.kind = .number)
    (hnext : items (pos + 1) = .ok (some second)) (hnumber' : second.kind = .number)
    (hadjoins : t.adjoins second = true) :
    Rule.value.Faults items pos (.complaint (brokenBlame t second)) := by
  have hother : ∀ kind ≠ .number, (Rule.token kind).Matches items pos none pos :=
    fun kind hkind => matches_token_none ⟨t, ht, fun heq => hkind (heq.symm.trans hnumber)⟩
  have hbroken := matches_brokenNumber ht hnumber hnext hnumber' hadjoins
  exact faults_value_operand ht hnumber (Rule.faults_of_branches rfl
    (Branches.faults_tail (matches_call_none (hother .leftParen (by decide)))
    (Branches.faults_tail (matches_call (matches_token ht hnumber)
      (matches_look hnext (matches_require_none (by simp [hnumber']))))
    (Branches.faults_tail (matches_call_none (hother .name (by decide)))
    (Branches.faults_tail (matches_call_none (hother .string (by decide)))
    (Branches.faults_head (faults_call_next hbroken (faults_raise _ _))))))))

/-! ## Lines -/

/-- What is wrong with the first value behind a directive ends the line. -/
theorem faults_scriptLine (ht : items pos = .ok (some t)) (hname : t.kind = .name)
    (h : Rule.value.Faults items (pos + 1) fault) : Rule.scriptLine.Faults items pos fault := by
  have hpositional : Rule.positionalValue.Faults items (pos + 1) fault :=
    Rule.faults_of_branches rfl (Branches.faults_head (faults_call h))
  have hvalues : Rule.valueList.Faults items (pos + 1) fault :=
    Rule.faults_of_branches rfl (Branches.faults_head (faults_call hpositional))
  have hparams : Rule.commandParams.Faults items (pos + 1) fault :=
    Rule.faults_of_branches rfl (Branches.faults_head (faults_call hvalues))
  have hcommand : Rule.command.Faults items pos fault :=
    Rule.faults_of_branches rfl (Branches.faults_head
      (faults_call_next (matches_token ht hname) (faults_call hparams)))
  exact Rule.faults_of_branches rfl (Branches.faults_head (faults_call hcommand))

end

end OpticScript
