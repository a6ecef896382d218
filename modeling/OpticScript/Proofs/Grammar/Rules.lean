import OpticScript.Proofs.Grammar.Actions
import OpticScript.Proofs.Keywords

/-!
# The rules of lines in terms of their parts

What a rule from values up to lines matches, given what the rules that it calls match. A value is an
expression only where no action begins. Values follow one another up to a comma with no value behind
it (`matches_nextValue_none`), and pairs up to commas with no pair behind them (`PairsEnd`); a list
of pairs is matched if it ends where it stops, and joined with the pairs that come after it if they
end where they stop (`PairsRead`). A line is a command or nothing, a comment or none, and the
newline.
-/

namespace OpticScript

open Packrat Packrat.Branch

section

variable {items : Nat → Except ScriptError (Option Token)} {pos mid stop : Nat} {t : Token}

/-- The line ends here but for a comment. -/
def LineEnds (items : Nat → Except ScriptError (Option Token)) (pos : Nat) : Prop :=
  Sees items pos (· ∈ [.newline, .comment])

theorem Sees.matches_token_none {p : TokenKind → Prop} {kind : TokenKind} (h : Sees items pos p)
    (hkind : ¬p kind) : (Rule.token kind).Matches items pos none pos :=
  OpticScript.matches_token_none (h.imp fun _ hp heq => hkind (heq ▸ hp))

/-! ## Values -/

theorem matches_value_action {codes : String}
    (h : Rule.action.Matches items pos (some codes) stop) :
    Rule.value.Matches items pos (some (.action codes)) stop :=
  Rule.matches_of_branches rfl (Branches.match_head (matches_call h (matches_done _ _)))

theorem matches_value_expr {e : Expr} (haction : Rule.action.Matches items pos none pos)
    (h : Rule.sum.Matches items pos (some e) stop) :
    Rule.value.Matches items pos (some (.expr e)) stop :=
  Rule.matches_of_branches rfl (Branches.match_tail (matches_call_none haction)
    (Branches.match_head (matches_call h (matches_done _ _))))

/-- No expression begins at the end of a line. -/
theorem LineEnds.matches_sum_none (h : LineEnds items pos) :
    Rule.sum.Matches items pos none pos := by
  have hnone : ∀ kind ∉ [TokenKind.newline, .comment],
      (Rule.token kind).Matches items pos none pos :=
    fun kind hkind => Sees.matches_token_none h hkind
  have hbroken : Rule.brokenNumber.Matches items pos none pos :=
    Rule.matches_of_branches rfl (Branches.match_tail (matches_call_none (hnone _ (by decide)))
      (Branches.match_nil _))
  have hoperand : Rule.operand.Matches items pos none pos :=
    Rule.matches_of_branches rfl (Branches.match_tail (matches_call_none (hnone _ (by decide)))
      (Branches.match_tail (matches_call_none (hnone _ (by decide)))
      (Branches.match_tail (matches_call_none (hnone _ (by decide)))
      (Branches.match_tail (matches_call_none (hnone _ (by decide)))
      (Branches.match_tail (matches_call_none hbroken) (Branches.match_nil _))))))
  have hpower : Rule.power.Matches items pos none pos :=
    Rule.matches_of_branches rfl (Branches.match_tail (matches_call_none hoperand)
      (Branches.match_tail (matches_call_none hoperand) (Branches.match_nil _)))
  have hsigned : Rule.signed.Matches items pos none pos :=
    Rule.matches_of_branches rfl (Branches.match_tail (matches_call_none (hnone _ (by decide)))
      (Branches.match_tail (matches_call_none (hnone _ (by decide)))
      (Branches.match_tail (matches_call_none hpower) (Branches.match_nil _))))
  exact isChainRule_sum.matches_none (isChainRule_product.matches_none hsigned)

theorem LineEnds.matches_value_none (h : LineEnds items pos) :
    Rule.value.Matches items pos none pos := by
  have haction : Rule.action.Matches items pos none pos := by
    obtain ⟨t, ht, hkind⟩ := h
    refine matches_action_none ht ?_ fun hname => by simp [hname] at hkind
    revert hkind
    cases t.kind <;> decide
  exact Rule.matches_of_branches rfl (Branches.match_tail (matches_call_none haction)
    (Branches.match_tail (matches_call_none h.matches_sum_none) (Branches.match_nil _)))

/-! ## Values by position -/

theorem matches_positional {v : Value} (h : Rule.value.Matches items pos (some v) stop)
    (hnext : Sees items stop (· ≠ .equals)) :
    Rule.positionalValue.Matches items pos (some v) stop := by
  obtain ⟨t, ht, hkind⟩ := hnext
  exact Rule.matches_of_branches rfl (Branches.match_head (matches_call h
    (matches_look ht (matches_require (by simp [hkind]) (matches_done _ _)))))

/-- A key is no value by position. -/
theorem matches_positional_none {v : Value} (h : Rule.value.Matches items pos (some v) stop)
    (hnext : Sees items stop (· = .equals)) : Rule.positionalValue.Matches items pos none pos := by
  obtain ⟨t, ht, hkind⟩ := hnext
  exact Rule.matches_of_branches rfl (Branches.match_tail (matches_call h
    (matches_look ht (matches_require_none (by simp [hkind])))) (Branches.match_nil _))

theorem LineEnds.matches_positional_none (h : LineEnds items pos) :
    Rule.positionalValue.Matches items pos none pos :=
  Rule.matches_of_branches rfl (Branches.match_tail (matches_call_none h.matches_value_none)
    (Branches.match_nil _))

theorem matches_nextValue {v : Value} (ht : items pos = .ok (some t)) (hcomma : t.kind = .comma)
    (h : Rule.positionalValue.Matches items (pos + 1) (some v) stop) :
    Rule.nextValue.Matches items pos (some v) stop :=
  Rule.matches_of_branches rfl (Branches.match_head (matches_call (matches_token ht hcomma)
    (matches_call h (matches_done _ _))))

/-- There is no further value where no comma comes, or one with no value behind it. -/
theorem matches_nextValue_none (h : Sees items pos (· ≠ .comma) ∨
    Sees items pos (· = .comma) ∧ Rule.positionalValue.Matches items (pos + 1) none (pos + 1)) :
    Rule.nextValue.Matches items pos none pos := by
  rcases h with hother | ⟨⟨t, ht, hcomma⟩, hnone⟩
  · exact Rule.matches_of_branches rfl (Branches.match_tail
      (matches_call_none (matches_token_none hother)) (Branches.match_nil _))
  · exact Rule.matches_of_branches rfl (Branches.match_tail (matches_call (matches_token ht hcomma)
      (matches_call_none hnone)) (Branches.match_nil _))

theorem matches_valueList {v : Value} {vs : List Value}
    (hfirst : Rule.positionalValue.Matches items pos (some v) mid)
    (hmore : Repeats (evaluate scriptGrammar items) .nextValue mid vs stop) :
    Rule.valueList.Matches items pos (some (v :: vs)) stop :=
  Rule.matches_of_branches rfl (Branches.match_head (matches_call hfirst
    (matches_star hmore (matches_done _ _))))

theorem matches_valueList_none (h : Rule.positionalValue.Matches items pos none pos) :
    Rule.valueList.Matches items pos none pos :=
  Rule.matches_of_branches rfl (Branches.match_tail (matches_call_none h) (Branches.match_nil _))

/-! ## Values under keys -/

theorem matches_keyValue {v : Value} {equals : Token} (ht : items pos = .ok (some t))
    (hname : t.kind = .name) (hitem : items (pos + 1) = .ok (some equals))
    (hequals : equals.kind = .equals) (h : Rule.value.Matches items (pos + 1 + 1) (some v) stop) :
    Rule.keyValue.Matches items pos (some (.ofList [(t.text, v)])) stop :=
  Rule.matches_of_branches rfl (Branches.match_head (matches_call (matches_token ht hname)
    (matches_call (matches_token hitem hequals) (matches_maybe h (matches_done _ _)))))

/-- The join of two lists of pairs. -/
def keywordJoin : Phrase Keywords :=
  .call .keywordList fun keywords => .star (.token .comma) fun commas =>
    (Branch.require !commas.isEmpty).bind fun _ =>
      .call .keywordList fun more => .done (keywords.merge more)

theorem isJoinRule_keywordList :
    IsJoinRule scriptGrammar items .keywordList keywordJoin Phrase.keywordList.tail where
  strategy := rfl
  branches := rfl
  join_none _ _ := matches_call_none (matches_seed _)

/-- A list of pairs begins with a key. -/
theorem matches_keywordList_none (h : Sees items pos (· ≠ .name)) :
    Rule.keywordList.Matches items pos none pos := by
  have hkey : Rule.keyValue.Matches items pos none pos :=
    Rule.matches_of_branches rfl (Branches.match_tail (matches_call_none (matches_token_none h))
      (Branches.match_nil _))
  exact isJoinRule_keywordList.matches_none fun seed => Branches.match_tail
    (matches_call_none (matches_unseeded (fun heq => by simp at heq) hkey)) (Branches.match_nil _)

theorem seeded_comma {start : Nat} {seed : Memo Keywords} {result : Option Token}
    (h : (Rule.token .comma).Matches items pos result stop) :
    Packrat.Matches (seededWith scriptGrammar items .keywordList start seed)
      (.token .comma) pos result stop :=
  matches_unseeded (fun heq => by simp at heq) h

/-- So many commas come next, and then another token. -/
abbrev Commas (items : Nat → Except ScriptError (Option Token)) (pos : Nat) (commas : List Token)
    (stop : Nat) : Prop :=
  Repeats (evaluate scriptGrammar items) (.token .comma) pos commas stop

theorem Commas.seeded {start : Nat} {seed : Memo Keywords} {commas : List Token}
    (h : Commas items pos commas stop) :
    Repeats (seededWith scriptGrammar items .keywordList start seed)
      (.token .comma) pos commas stop :=
  Repeats.imp h fun _ _ _ => seeded_comma

theorem commas_none (h : Sees items pos (· ≠ .comma)) : Commas items pos [] pos :=
  .nil (matches_token_none h)

theorem Commas.cons {commas : List Token} (ht : items pos = .ok (some t)) (hcomma : t.kind = .comma)
    (h : Commas items (pos + 1) commas stop) : Commas items pos (t :: commas) stop :=
  Repeats.cons (matches_token ht hcomma) (Nat.lt_succ_self pos) h

/-- No pairs come next, be it behind commas or not. -/
def PairsEnd (items : Nat → Except ScriptError (Option Token)) (pos : Nat) : Prop :=
  ∃ commas stop, Commas items pos commas stop ∧
    (commas = [] ∨ Rule.keywordList.Matches items stop none stop)

theorem pairsEnd_of_no_comma (h : Sees items pos (· ≠ .comma)) : PairsEnd items pos :=
  ⟨[], pos, commas_none h, .inl rfl⟩

theorem PairsEnd.joinStops {keywords : Keywords} (h : PairsEnd items stop) (hlt : pos < stop) :
    JoinStops scriptGrammar items .keywordList keywordJoin pos keywords stop := by
  obtain ⟨commas, mid, hcommas, hnone⟩ := h
  refine ⟨mid, matches_call (matches_seed _) (matches_star hcommas.seeded ?_)⟩
  rcases commas with _ | ⟨comma, commas⟩
  · exact matches_require_none rfl
  · refine matches_require rfl (matches_call_none (matches_unseeded (fun _ => ?_) ?_))
    · have := Repeats.le hcommas
      omega
    · exact hnone.resolve_left (List.cons_ne_nil _ _)

/-- Pairs are read up to here : they are matched if they end here, and with pairs that come next,
behind at least one comma, if those end where they stop. -/
structure PairsRead (items : Nat → Except ScriptError (Option Token)) (pos : Nat)
    (pairs : List (String × Value)) (stop : Nat) : Prop where
  ends : PairsEnd items stop → Rule.keywordList.Matches items pos (some (.ofList pairs)) stop
  goesOn : ∀ {commas mid more stop'}, Commas items stop commas mid → commas ≠ [] →
    Rule.keywordList.Matches items mid (some (.ofList more)) stop' → mid < stop' →
    PairsEnd items stop' → Rule.keywordList.Matches items pos (some (.ofList (pairs ++ more))) stop'

theorem pairsRead_keyValue {pair : String × Value} (hlt : pos < stop)
    (h : Rule.keyValue.Matches items pos (some (.ofList [pair])) stop) :
    PairsRead items pos [pair] stop := by
  have hunit : MatchesUnit scriptGrammar items .keywordList Phrase.keywordList.tail pos
      (.ofList [pair]) stop :=
    ⟨fun _ => Branches.match_head
      (matches_call (matches_unseeded (fun heq => by simp at heq) h) (matches_done _ _)), hlt⟩
  refine ⟨fun hends => hunit.matches_unit isJoinRule_keywordList (hends.joinStops hlt), ?_⟩
  intro commas mid more stop' hcommas hne hmore hlt' hends
  have hle := Repeats.le hcommas
  have hsome : (!commas.isEmpty) = true := by simpa using hne
  rw [Keywords.ofList_append]
  exact hunit.matches_join isJoinRule_keywordList (by omega)
    (matches_call (matches_seed _) (matches_star hcommas.seeded (matches_require hsome
      (matches_call (matches_unseeded (fun _ => by omega) hmore) (matches_done _ _)))))
    (hends.joinStops (by omega))

theorem PairsRead.append {pairs more : List (String × Value)} {commas : List Token} {next : Nat}
    (h : PairsRead items pos pairs mid) (hcommas : Commas items mid commas next) (hne : commas ≠ [])
    (h' : PairsRead items next more stop) (hlt : next < stop) :
    PairsRead items pos (pairs ++ more) stop where
  ends hends := h.goesOn hcommas hne (h'.ends hends) hlt hends
  goesOn hcommas' hne' hmore hlt' hends := by
    rw [List.append_assoc]
    have hle := Repeats.le hcommas'
    exact h.goesOn hcommas hne (h'.goesOn hcommas' hne' hmore hlt' hends) (by omega) hends

/-! ## Parameters -/

/-- A comma that ends the line is read, or nothing. -/
inductive TrailingReads (items : Nat → Except ScriptError (Option Token)) (pos : Nat) : Nat → Prop
  | nothing (h : Sees items pos (· ≠ .comma)) : TrailingReads items pos pos
  | comma {comma : Token} (hitem : items pos = .ok (some comma)) (hcomma : comma.kind = .comma)
      (hends : LineEnds items (pos + 1)) : TrailingReads items pos (pos + 1)

theorem TrailingReads.matches_trailing {α : Type} {a : α} (h : TrailingReads items pos stop) :
    Branch.Matches items (evaluate scriptGrammar items)
      (Phrase.trailingComma.bind fun _ => (.done a : Phrase α)) pos (some a) stop := by
  cases h with
  | nothing h => exact matches_maybe_none (matches_token_none h) (matches_done _ _)
  | comma hitem hcomma hends =>
    obtain ⟨next, hnext, hkind⟩ := hends
    exact matches_maybe_ahead (matches_token hitem hcomma) hnext (by simpa using hkind)
      (matches_done _ _)

/-- A comma at the end of the line is no comma between two pairs. -/
theorem TrailingReads.pairsEnd (h : TrailingReads items pos stop) : PairsEnd items pos := by
  cases h with
  | nothing h => exact pairsEnd_of_no_comma h
  | comma hitem hcomma hends =>
    have hends' : Sees items (pos + 1) (· ∈ [.newline, .comment]) := hends
    refine ⟨_, _, .cons hitem hcomma (commas_none (hends'.imp fun kind hkind heq => ?_)), .inr ?_⟩
    · simp [heq] at hkind
    · exact matches_keywordList_none (hends'.imp fun kind hkind heq => by simp [heq] at hkind)

theorem matches_params_both {args : List Value} {keywords : Keywords}
    (hargs : Rule.valueList.Matches items pos (some args) mid) (ht : items mid = .ok (some t))
    (hcomma : t.kind = .comma) {next : Nat}
    (hpairs : Rule.keywordList.Matches items (mid + 1) (some keywords) next)
    (htrailing : TrailingReads items next stop) :
    Rule.commandParams.Matches items pos (some { args, keywords }) stop :=
  Rule.matches_of_branches rfl (Branches.match_head (matches_call hargs
    (matches_call (matches_token ht hcomma) (matches_call hpairs htrailing.matches_trailing))))

theorem matches_params_values {args : List Value}
    (hargs : Rule.valueList.Matches items pos (some args) mid)
    (htrailing : TrailingReads items mid stop) :
    Rule.commandParams.Matches items pos (some { args, keywords := .empty }) stop := by
  have hboth : ∃ stop', Branch.Matches items (evaluate scriptGrammar items)
      (Phrase.commandParams.head (List.cons_ne_nil _ _)) pos none stop' := by
    cases htrailing with
    | nothing h => exact ⟨_, matches_call hargs (matches_call_none (matches_token_none h))⟩
    | comma hitem hcomma hends =>
      have hends : Sees items (mid + 1) (· ∈ [.newline, .comment]) := hends
      exact ⟨_, matches_call hargs (matches_call (matches_token hitem hcomma)
        (matches_call_none (matches_keywordList_none
          (hends.imp fun kind hkind heq => by simp [heq] at hkind))))⟩
  obtain ⟨stop', hboth⟩ := hboth
  exact Rule.matches_of_branches rfl (Branches.match_tail hboth (Branches.match_head
    (matches_call hargs htrailing.matches_trailing)))

theorem matches_params_keywords {keywords : Keywords}
    (hargs : Rule.valueList.Matches items pos none pos)
    (hpairs : Rule.keywordList.Matches items pos (some keywords) mid)
    (htrailing : TrailingReads items mid stop) :
    Rule.commandParams.Matches items pos (some { args := [], keywords }) stop :=
  Rule.matches_of_branches rfl (Branches.match_tail (matches_call_none hargs)
    (Branches.match_tail (matches_call_none hargs)
    (Branches.match_head (matches_call hpairs htrailing.matches_trailing))))

/-! ## Lines -/

theorem matches_primary {parameters : Parameters} (ht : items pos = .ok (some t))
    (hname : t.kind = .name)
    (h : Rule.commandParams.Matches items (pos + 1) (some parameters) stop) :
    Rule.command.Matches items pos (some (.primary { directive := t.text, parameters })) stop :=
  Rule.matches_of_branches rfl (Branches.match_head (matches_call (matches_token ht hname)
    (matches_call h (matches_done _ _))))

theorem matches_secondary {parameters : Parameters} (ht : items pos = .ok (some t))
    (hplus : t.kind = .plus)
    (h : Rule.commandParams.Matches items (pos + 1) (some parameters) stop) :
    Rule.command.Matches items pos (some (.secondary parameters t)) stop :=
  Rule.matches_of_branches rfl (Branches.match_tail
    (matches_call_none (matches_token_none ⟨t, ht, by simp [hplus]⟩))
    (Branches.match_head (matches_call (matches_token ht hplus)
      (matches_call h (matches_done _ _)))))

theorem matches_command_none (h : Sees items pos (· ∉ [.name, .plus])) :
    Rule.command.Matches items pos none pos :=
  Rule.matches_of_branches rfl (Branches.match_tail
    (matches_call_none (h.matches_token_none (by decide)))
    (Branches.match_tail (matches_call_none (h.matches_token_none (by decide)))
      (Branches.match_nil _)))

/-- A comment and the newline are read, or the newline alone. -/
inductive EndReads (items : Nat → Except ScriptError (Option Token)) (pos : Nat) : Nat → Prop
  | newline {newline : Token} (hitem : items pos = .ok (some newline))
      (hkind : newline.kind = .newline) : EndReads items pos (pos + 1)
  | comment {comment newline : Token} (hitem : items pos = .ok (some comment))
      (hkind : comment.kind = .comment) (hitem' : items (pos + 1) = .ok (some newline))
      (hkind' : newline.kind = .newline) : EndReads items pos (pos + 1 + 1)

theorem EndReads.matches_end {α : Type} {a : α} (h : EndReads items pos stop) :
    Branch.Matches items (evaluate scriptGrammar items)
      (do let _ ← Phrase.optionalToken .comment
          let _ ← Phrase.token .newline
          return a) pos (some a) stop := by
  cases h with
  | newline hitem hkind =>
    exact matches_maybe_none (matches_token_none ⟨_, hitem, by simp [hkind]⟩)
      (matches_call (matches_token hitem hkind) (matches_done _ _))
  | comment hitem hkind hitem' hkind' =>
    exact matches_maybe (matches_token hitem hkind)
      (matches_call (matches_token hitem' hkind') (matches_done _ _))

theorem EndReads.lineEnds (h : EndReads items pos stop) : LineEnds items pos := by
  cases h with
  | newline hitem hkind => exact ⟨_, hitem, by simp [hkind]⟩
  | comment hitem hkind => exact ⟨_, hitem, by simp [hkind]⟩

theorem matches_statement {statement : Statement}
    (h : Rule.command.Matches items pos (some statement) mid) (hend : EndReads items mid stop) :
    Rule.scriptLine.Matches items pos (some (.statement statement)) stop :=
  Rule.matches_of_branches rfl (Branches.match_head (matches_call h hend.matches_end))

theorem matches_blank (hend : EndReads items pos stop) :
    Rule.scriptLine.Matches items pos (some .blank) stop := by
  have hends : Sees items pos (· ∈ [.newline, .comment]) := hend.lineEnds
  have hcommand : Rule.command.Matches items pos none pos :=
    matches_command_none (hends.imp fun kind => by cases kind <;> decide)
  exact Rule.matches_of_branches rfl (Branches.match_tail (matches_call_none hcommand)
    (Branches.match_head hend.matches_end))

/-- There is no line where neither a command is that comes up to the end of a line nor the end of a
line. -/
theorem matches_scriptLine_none (hpos : Sees items pos (· ∉ [.newline, .comment]))
    (h : Rule.command.Matches items pos none pos ∨ ∃ statement stop,
      Rule.command.Matches items pos (some statement) stop ∧
        Sees items stop (· ∉ [.newline, .comment])) :
    Rule.scriptLine.Matches items pos none pos := by
  have hend : ∀ {α : Type} {a : α} {pos : Nat}, Sees items pos (· ∉ [.newline, .comment]) →
      Branch.Matches items (evaluate scriptGrammar items)
        (do let _ ← Phrase.optionalToken .comment
            let _ ← Phrase.token .newline
            return a) pos none pos := fun hpos =>
    matches_maybe_none (hpos.matches_token_none (by decide))
      (matches_call_none (hpos.matches_token_none (by decide)))
  have hstatement : ∃ stop, Branch.Matches items (evaluate scriptGrammar items)
      (Phrase.scriptLine.head (List.cons_ne_nil _ _)) pos none stop := by
    rcases h with hnone | ⟨statement, stop, hsome, hstop⟩
    · exact ⟨_, matches_call_none hnone⟩
    · exact ⟨_, matches_call hsome (hend hstop)⟩
  obtain ⟨stop, hstatement⟩ := hstatement
  exact Rule.matches_of_branches rfl (Branches.match_tail hstatement
    (Branches.match_tail (hend hpos) (Branches.match_nil _)))

end

end OpticScript
