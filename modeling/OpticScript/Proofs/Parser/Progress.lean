import OpticScript.Proofs.Grammar.Soundness
import OpticScript.Proofs.Parser.Termination

/-!
# A rule fails in its place and succeeds forward

What a rule does to the cursor of a parser. If it does not match, the cursor is where it was. If
it matches, it takes at least one token and no more than have been read, its node is of the variant
that belongs to the rule, and what is in the node is what those tokens derive (`Fits`). So whoever
calls the rule through `expectWith` finds a result in every match. If the rule is asked for again
at the same position it gives the same answer and leaves the cursor at the same place, be it from a
memo or not (`callAt_again`).

This is read off the outcome of the rule, which does without a table and without nodes
(`fits_of_comesTo`) : every answer and every memo is such an outcome, with its result in a node.
-/

namespace OpticScript

open Packrat Packrat.Outcome

/-- The outcome of a rule depends on no token beyond those it has looked at. -/
theorem Lexer.comesTo_derives {lexer : Lexer} {fuel pos : Nat} {r : Rule} {result : r.Result}
    (h : (lexer.comesTo fuel r pos).answer = .ok (some result)) {tokens : List Token}
    (htokens : ∀ i < (lexer.comesTo fuel r pos).reach, lexer.item i = .ok tokens[i]?) :
    scriptMeaning tokens r pos (lexer.comesTo fuel r pos).stop result := by
  have hfinishes : (lexer.comesTo fuel r pos).Finishes := by
    unfold Finishes
    simp [h]
  have hsame : evaluate scriptGrammar (fun i => .ok tokens[i]?) fuel r pos =
      lexer.comesTo fuel r pos :=
    evaluate_congr hfinishes fun i hi => (htokens i hi).symm
  have hmeans := evaluate_derives (fun _ => rfl) fuel r pos (some result) (by rw [hsame, h])
  rw [hsame] at hmeans
  exact hmeans result rfl

namespace Parser

/-- A rule that is asked for at a position. -/
def callAt (caching : Bool) (r : Rule) (pos : Nat) (parser : Parser) : Reply (Option Node) :=
  callWith caching (fuel parser) r (parser.moveTo pos)

/-- The result of a rule that is asked for at a position. -/
def expectAt (caching : Bool) (r : Rule) (pos : Nat) (parser : Parser) : Reply (Option r.Result) :=
  expectWith caching (fuel parser) r (parser.moveTo pos)

/-- What an answer of a rule at a position says of the place where it stops, after these tokens have
been read. -/
def Fits (tokens : List Token) (r : Rule) (pos stop : Nat) : Option Node → Prop
  | none => stop = pos
  | some node => (pos < stop ∧ stop ≤ tokens.length) ∧ node.kind = r.kind ∧
      ∃ result, r.unwrap node = some result ∧ scriptMeaning tokens r pos stop result

/-- Nothing is lost when the result is taken out of the node. -/
theorem Fits.isSome_unwrap {tokens : List Token} {r : Rule} {pos stop : Nat} {kept : Option Node}
    (h : Fits tokens r pos stop kept) : (kept.bind r.unwrap).isSome = kept.isSome := by
  cases kept with
  | none => rfl
  | some node =>
    obtain ⟨-, -, result, hresult, -⟩ := h
    simp [hresult]

section

variable {lexer : Lexer} {caching : Bool} {n pos : Nat} {parser : Parser} {r : Rule}

/-- A reply that is an answer is the answer of the outcome. -/
theorem Answers.answer_eq {α : Type} {o : Outcome Blame ScriptError α} {reply : Reply α}
    (h : Answers lexer caching n o reply) (hfinishes : o.Finishes) {a : α}
    (hanswer : reply.1 = .ok a) : o.answer = .ok a ∧ reply.2.cursor = o.stop := by
  unfold Answers Agrees at h
  rcases ho : o.answer with (e | blame | _) | a'
  · simp [ho, hanswer] at h
  · simp [ho, hanswer] at h
  · exact absurd ho hfinishes
  · rw [ho] at h
    obtain ⟨hanswer', hcursor, -⟩ := h
    rw [hanswer'] at hanswer
    obtain rfl := Except.ok.inj hanswer
    exact ⟨rfl, hcursor⟩

theorem Answers.reply_eq {α : Type} {o : Outcome Blame ScriptError α} {reply : Reply α}
    (h : Answers lexer caching n o reply) {a : α} (hanswer : o.answer = .ok a) :
    reply.1 = .ok a ∧ reply.2.cursor = o.stop ∧ Sound lexer caching (max n o.reach) reply.2 := by
  unfold Answers Agrees at h
  rwa [hanswer] at h

/-- A rule has the outcome that enough fuel gives, whatever the parser has read. -/
theorem callAt_agrees (h : Sound lexer caching n parser) (hpos : pos ≤ n) (r : Rule) :
    (lexer.comesTo (enoughFor lexer) r pos).Finishes ∧
      Answers lexer caching n ((lexer.comesTo (enoughFor lexer) r pos).wrapped Rule.nodes)
        (callAt caching r pos parser) := by
  obtain ⟨wall, hle, hwall, hfuel⟩ := exists_wall_enough h hpos
  have hfinishes : (lexer.comesTo (enoughFor lexer) r pos).Finishes :=
    Lexer.comesTo_finishes hwall hle hfuel
  have hagrees : Answers lexer caching n ((lexer.comesTo (fuel parser) r pos).wrapped Rule.nodes)
      (callAt caching r pos parser) := callWith_agrees r (h.moveTo hpos)
  have hsame : lexer.comesTo (fuel parser) r pos = lexer.comesTo (enoughFor lexer) r pos :=
    evaluate_of_le hfinishes (enoughFor_le_fuel h)
  exact ⟨hfinishes, hsame ▸ hagrees⟩

/-- A failure takes nothing, and a match takes what it derives. -/
theorem fits_of_comesTo {fuel : Nat} {result : Option r.Result} {tokens : Array Token}
    (hcomes : (lexer.comesTo fuel r pos).answer = .ok result)
    (hread : ∀ i < tokens.size, lexer.item i = .ok tokens[i]?)
    (hreach : (lexer.comesTo fuel r pos).reach ≤ tokens.size) :
    Fits tokens.toList r pos (lexer.comesTo fuel r pos).stop (result.map r.wrap) := by
  have hadvances := lexer.comesTo_advances fuel r pos
  cases result with
  | none => exact evaluate_returns (fun _ => rfl) _ r pos none hcomes rfl
  | some result =>
    refine ⟨⟨hadvances.lt_stop rfl _ hcomes rfl, hadvances.stop_le.trans hreach⟩,
      r.kind_wrap result, result, r.unwrap_wrap result, ?_⟩
    refine Lexer.comesTo_derives hcomes fun i hi => ?_
    rw [Array.getElem?_toList]
    exact hread i (hi.trans_le hreach)

theorem Sound.item_eq (h : Sound lexer caching n parser) (i : Nat)
    (hi : i < parser.feed.tokens.size) : lexer.item i = .ok parser.feed.tokens[i]? := by
  have hholds : parser.feed.Holds lexer n := h.holds
  rw [Array.getElem?_eq_getElem hi]
  exact hholds.item_eq i _ (Array.getElem?_eq_getElem hi)

/-- Every memo is the answer of its rule. -/
theorem memo_fits (h : Sound lexer caching n parser) {memo : Memo Node}
    (hget : parser.table.get? r pos = some memo) :
    Fits parser.feed.tokens.toList r pos memo.stop memo.result := by
  have hholds : parser.feed.Holds lexer n := h.holds
  obtain ⟨fuel, reach, hreach, he⟩ := (h.settled hget).resolve_left (by simp)
  rw [evaluate_scriptGrammar] at he
  change (lexer.comesTo fuel r pos).wrapped Rule.nodes = _ at he
  obtain ⟨result, hcomes, hresult⟩ := map_answer_ok.1 (congrArg Outcome.answer he)
  have hle : (lexer.comesTo fuel r pos).reach ≤ parser.feed.tokens.size := by
    rw [hholds.size_eq, show (lexer.comesTo fuel r pos).reach =
      reach from congrArg Outcome.reach he]
    exact hreach
  have hstop : (lexer.comesTo fuel r pos).stop = memo.stop :=
    congrArg Outcome.stop he
  dsimp only at hresult
  rw [← hresult, ← hstop]
  exact fits_of_comesTo hcomes h.item_eq hle

theorem callAt_fits (h : Sound lexer caching n parser) (hpos : pos ≤ n) {kept : Option Node}
    (hanswer : (callAt caching r pos parser).1 = .ok kept) :
    let reply := callAt caching r pos parser
    Fits reply.2.feed.tokens.toList r pos reply.2.cursor kept := by
  obtain ⟨hfinishes, hagrees⟩ := callAt_agrees h hpos r
  obtain ⟨hkept, hstop⟩ := Answers.answer_eq hagrees (hfinishes.map _) hanswer
  obtain ⟨-, -, hsound⟩ := Answers.reply_eq hagrees hkept
  have hholds : (callAt caching r pos parser).2.feed.Holds lexer _ := hsound.holds
  obtain ⟨result, hcomes, rfl⟩ := map_answer_ok.1 hkept
  intro reply
  rw [hstop]
  refine fits_of_comesTo hcomes (Sound.item_eq hsound) ?_
  rw [hholds.size_eq]
  exact Nat.le_max_right _ _

/-- The result of a rule is the one in its node. -/
theorem expectAt_eq {kept : Option Node} (hanswer : (callAt caching r pos parser).1 = .ok kept) :
    expectAt caching r pos parser =
      (.ok (kept.bind r.unwrap), (callAt caching r pos parser).2) := by
  rw [callAt] at hanswer ⊢
  rw [expectAt, expectWith, expect_eq]
  rcases hcall : callWith caching (fuel parser) r (parser.moveTo pos) with ⟨answer, after⟩
  rw [hcall] at hanswer
  obtain rfl : answer = .ok kept := hanswer
  rfl

/-- A rule that has answered answers the same once more. -/
theorem callAt_again (h : Sound lexer caching n parser) (hpos : pos ≤ n) {kept : Option Node}
    (hanswer : (callAt caching r pos parser).1 = .ok kept) :
    let reply := callAt caching r pos parser
    (callAt caching r pos reply.2).1 = .ok kept ∧
      (callAt caching r pos reply.2).2.cursor = reply.2.cursor := by
  obtain ⟨hfinishes, hagrees⟩ := callAt_agrees h hpos r
  obtain ⟨hcomes, hstop⟩ := Answers.answer_eq hagrees (hfinishes.map _) hanswer
  obtain ⟨-, -, hsound⟩ := Answers.reply_eq hagrees hcomes
  have hagain := (callAt_agrees hsound (hpos.trans (Nat.le_max_left _ _)) r).2
  obtain ⟨hanswer', hcursor', -⟩ := Answers.reply_eq hagain hcomes
  exact ⟨hanswer', hcursor'.trans hstop.symm⟩

end

/-- Rules fail in their place and succeed forward. For every source, after all admissible requests
none of which was an error, the cursor is not behind what has been read, and every memo in the
table is of the variant that belongs to its rule and ends where it should. Every rule that is asked
for there, or at any other position up to the next token to be read, and that has an answer, has
left the cursor at that position if it does not match. If it matches, the cursor is farther on and
not behind what has been read, the node is of the variant that belongs to the rule, and the result
in it is what the tokens in between derive by that rule. Who expects the result of the rule gets
it, and nothing is discarded. The same rule at the same position then has the same answer and
leaves the cursor at the same place. -/
theorem session_fits (source : Source) (trace : Option Trace) (requests : List Request)
    (hadmits : Admits requests (.ofLexer (.ofSource source) trace)) (caching : Bool) :
    ∀ parser ∈ (session caching requests (.ofLexer (.ofSource source) trace)).2,
      parser.cursor ≤ parser.feed.tokens.size ∧
        (∀ r pos memo, parser.table.get? r pos = some memo →
          Fits parser.feed.tokens.toList r pos memo.stop memo.result) ∧
        ∀ r, ∀ pos ≤ parser.feed.tokens.size, ∀ kept,
          let reply := callAt caching r pos parser
          reply.1 = .ok kept →
            Fits reply.2.feed.tokens.toList r pos reply.2.cursor kept ∧
              (expectAt caching r pos parser = (.ok (kept.bind r.unwrap), reply.2) ∧
                (kept.bind r.unwrap).isSome = kept.isSome) ∧
              (callAt caching r pos reply.2).1 = .ok kept ∧
              (callAt caching r pos reply.2).2.cursor = reply.2.cursor := by
  intro parser hparser
  obtain ⟨n, h⟩ := exists_sound_of_session hadmits hparser
  have hholds : parser.feed.Holds (.ofSource source) n := h.holds
  refine ⟨hholds.size_eq ▸ h.cursor_le, fun r pos memo hget => memo_fits h hget,
    fun r pos hpos kept hanswer => ?_⟩
  rw [hholds.size_eq] at hpos
  have hfits := callAt_fits h hpos hanswer
  exact ⟨hfits, ⟨expectAt_eq hanswer, hfits.isSome_unwrap⟩, callAt_again h hpos hanswer⟩

/-- After a name has been read and the cursor is at the start again, a sum takes the tokens up to
the end of the line, and does so once more. -/
theorem session_fits_sum :
    let requests := [Request.rule (.token .name), .reset 0]
    let difference : Expr := .binary .subtract (.name "x") (.name "y")
    Admits requests (.ofLexer (.ofSource (.ofText "" "x-y"))) ∧
      ∃ parser ∈ (session true requests (.ofLexer (.ofSource (.ofText "" "x-y")))).2,
        let reply := callAt true .sum 0 parser
        reply.1 = .ok (some (.expr difference)) ∧ reply.2.cursor = 3 ∧
          Fits reply.2.feed.tokens.toList .sum 0 3 (some (.expr difference)) ∧
          (expectAt true .sum 0 parser).1 = .ok (some difference) ∧
          (callAt true .sum 0 reply.2).1 = .ok (some (.expr difference)) := by
  intro requests difference
  have h : Admits requests (.ofLexer (.ofSource (.ofText "" "x-y"))) := by decide +kernel
  refine ⟨h, _, rfl, rfl, rfl, ?_⟩
  obtain ⟨hfits, ⟨hexpect, -⟩, hagain, -⟩ :=
    (session_fits (.ofText "" "x-y") none _ h true _ rfl).2.2 .sum 0 (Nat.zero_le _) _ rfl
  exact ⟨hfits, congrArg Prod.fst hexpect, hagain⟩

end Parser

end OpticScript
