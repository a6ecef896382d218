import OpticScript.Proofs.Lexer.Stream
import OpticScript.Script.Reading

/-!
# What a parser comes to

The answer to a request and the end of a whole script, said of the items of a lexer
without a memo table (`Request.outcome`, `scriptOutcome`). A parser that has read `n`
items and whose table holds outcomes answers what they say, with caching and without
(`answerWith_agrees`, `parseWith_eq`), and its fuel is enough (`outcome_finishes`,
`scriptOutcome_finishes`).
-/

namespace OpticScript

open Packrat Packrat.Outcome

/-- What a rule comes to at a position. -/
def Lexer.comesTo (lexer : Lexer) (fuel : Nat) (r : Rule) (pos : Nat) :
    Outcome Blame ScriptError (Option r.Result) :=
  evaluate scriptGrammar lexer.item fuel r pos

theorem evaluate_scriptGrammar (caching : Bool) (items : Nat → Except ScriptError (Option Token))
    (fuel : Nat) :
    evaluate (scriptGrammar caching) items fuel = evaluate scriptGrammar items fuel := by
  induction fuel with
  | zero => rfl
  | succ fuel ih =>
    have hgrown : ∀ r, (scriptGrammar caching).strategy r = .grown ↔
        scriptGrammar.strategy r = .grown := fun r =>
      (Rule.strategy_eq_grown caching r).trans (Rule.strategy_eq_grown true r).symm
    funext r pos
    simp only [evaluate, ih, hgrown]
    rfl

section

variable {lexer : Lexer} {fuel wall pos : Nat}

theorem Lexer.comesTo_advances (lexer : Lexer) (fuel : Nat) (r : Rule) (pos : Nat) :
    (lexer.comesTo fuel r pos).Advances true pos :=
  (scriptRanking true).evaluate_advances lexer.item fuel r pos

theorem Lexer.comesTo_upTo (hwall : Wall lexer.item (fun t => t.kind = .endMarker) wall)
    (fuel : Nat) {r : Rule} (hr : r ≠ .token .endMarker) (hpos : pos ≤ wall) :
    (lexer.comesTo fuel r pos).UpTo wall :=
  evaluate_upTo (scriptGrammar_confined true) hwall fuel r pos hr hpos

/-- A rule that is not left recursive comes to what its branches come to. -/
theorem Lexer.comesTo_succ (lexer : Lexer) (fuel : Nat) {r : Rule} (hr : r.isLeftRecursive = false)
    (pos : Nat) : lexer.comesTo (fuel + 1) r pos =
      firstOutcome (Branch.outcome lexer.item (lexer.comesTo fuel) fuel) pos false
        (Phrase.branches r) pos := by
  have hplain : ¬scriptGrammar.strategy r = .grown := by
    rw [scriptGrammar, Rule.strategy_eq_grown, hr]
    exact Bool.false_ne_true
  rw [Lexer.comesTo, evaluate, if_neg hplain]
  rfl

/-- The rule of a token takes the token at the position if it is of the kind. -/
theorem Lexer.comesTo_token (lexer : Lexer) (fuel : Nat) (kind : TokenKind) (pos : Nat) :
    lexer.comesTo (fuel + 1) (.token kind) pos = takeAt lexer.item (·.kind = kind) pos := by
  rw [Lexer.comesTo_succ lexer fuel rfl]
  simp only [Phrase.branches, Phrase.tokenBranches, firstOutcome, Branch.outcome, takeAt, lookAt]
  rcases lexer.item pos with e | _ | t
  · rfl
  · simp [thenMatch, andThen, here]
  · by_cases h : t.kind = kind <;> simp [thenMatch, andThen, here, h]

/-- An amount of fuel for a rule at the position. -/
def fuelFor (wall pos : Nat) : Nat := 12 * (wall - pos) + 14

theorem Lexer.comesTo_finishes (hwall : Wall lexer.item (fun t => t.kind = .endMarker) wall)
    {r : Rule} (hpos : pos ≤ wall) (hfuel : fuelFor wall pos ≤ fuel) :
    (lexer.comesTo fuel r pos).Finishes := by
  unfold fuelFor at hfuel
  by_cases hr : r = .token .endMarker
  · obtain ⟨fuel, rfl⟩ := Nat.exists_eq_succ_of_ne_zero (show fuel ≠ 0 by omega)
    rw [hr, comesTo_token]
    exact takeAt_finishes _ _ _
  · have hrank : r.rank < Rule.height := r.rank_lt_height
    refine (scriptRanking true).evaluate_finishes Rule.rank_lt_height
      (scriptGrammar_confined true) hwall hr hpos (Nat.le_trans ?_ hfuel)
    simp only [enough, scriptRanking, Rule.height] at *
    omega

end

/-! ## Requests -/

/-- The token at a position. -/
def Lexer.tokenAt (lexer : Lexer) (pos : Nat) : Outcome Blame ScriptError Token :=
  (lookAt lexer.item pos).andThen fun item stop =>
    match item with
    | some t => .here t stop
    | none => .fail .outOfFuel stop

namespace Parser

/-- What a request comes to at a position. -/
def Request.outcome (lexer : Lexer) (fuel : Nat) :
    (request : Request) → Nat → Outcome Blame ScriptError request.Answer
  | .mark, pos => .here pos pos
  | .reset target, _ => .here () target
  | .peek, pos => lexer.tokenAt pos
  | .get, pos => (lexer.tokenAt pos).andThen fun t stop => .here t (stop + 1)
  | .isAt kind, pos => (lexer.tokenAt pos).andThen fun t stop => .here (t.kind = kind : Bool) stop
  | .isNotAt kind, pos =>
    (lexer.tokenAt pos).andThen fun t stop => .here (!(t.kind = kind : Bool)) stop
  | .rule r, pos => (lexer.comesTo fuel r pos).wrapped Rule.nodes
  | .token kind, pos => lexer.comesTo fuel (.token kind) pos
  | .maybeToken kind, pos =>
    (lexer.comesTo fuel (.token kind) pos).andThen fun result stop =>
      match result with
      | none => .here none pos
      | some t => .here (some t) stop
  | .tokens kind least, pos =>
    (repeated (lexer.comesTo fuel (.token kind)) fuel pos).andThen fun tokens stop =>
      if least ≤ tokens.length then .here (some tokens) stop else .here none pos

/-- A parser that has read `n` items of the lexer, and whose memos are outcomes. -/
abbrev Sound (lexer : Lexer) (caching : Bool) (n : Nat) (parser : Parser) : Prop :=
  State.Sound (TokenFeed.view lexer) (scriptGrammar caching) Rule.nodes .empty n parser

/-- The parser answers what the outcome says. -/
abbrev Answers (lexer : Lexer) (caching : Bool) (n : Nat) {α : Type}
    (o : Outcome Blame ScriptError α) (reply : Reply α) : Prop :=
  Agrees (TokenFeed.view lexer) (scriptGrammar caching) Rule.nodes .empty n o reply

section

variable {lexer : Lexer} {caching : Bool} {n fuel : Nat} {parser : Parser}

theorem sound_ofLexer (lexer : Lexer) (caching : Bool) (trace : Option Trace) :
    Sound lexer caching 0 (ofLexer lexer trace) where
  holds := TokenFeed.holds_start lexer trace
  cursor_le := Nat.le_refl 0
  get?_of_pending h := by simp at h
  settled h := by simp [ofLexer] at h

theorem callWith_agrees (r : Rule) (h : Sound lexer caching n parser) :
    Answers lexer caching n ((lexer.comesTo fuel r parser.cursor).wrapped Rule.nodes)
      (callWith caching fuel r parser) := by
  rw [Lexer.comesTo, ← evaluate_scriptGrammar caching]
  exact call_agrees Rule.nodes_lawful (scriptRanking caching) fuel r h fun _ _ _ h => by simp at h

theorem expectWith_agrees (r : Rule) (h : Sound lexer caching n parser) :
    Answers lexer caching n (lexer.comesTo fuel r parser.cursor)
      (expectWith caching fuel r parser) :=
  expect_agrees Rule.nodes_lawful (callWith_agrees r h)

theorem peek_agrees (h : Sound lexer caching n parser) :
    Answers lexer caching n (lexer.tokenAt parser.cursor) (peek parser) := by
  have hpeek : peek parser = Step.andThen (Step.look TokenFeed.feed parser) fun item parser =>
      match item with
      | some t => (.ok t, parser)
      | none => (.error .outOfFuel, parser) := by
    rw [peek, Step.look, State.item, TokenFeed.feed_item]
    rcases parser.feed.token parser.cursor with ⟨e | t, feed⟩ <;> rfl
  rw [hpeek, Lexer.tokenAt]
  refine (look_agrees h).andThen fun item parser' _ _ hsound => ?_
  cases item with
  | some t => exact agrees_ok hsound t
  | none => trivial

theorem tokenAt_reach (lexer : Lexer) (pos : Nat) (t : Token)
    (ht : (lexer.tokenAt pos).answer = .ok t) :
    (lexer.tokenAt pos).stop = pos ∧ (lexer.tokenAt pos).reach = pos + 1 := by
  unfold Lexer.tokenAt lookAt at *
  rcases hitem : lexer.item pos with e | _ | t' <;> simp_all [andThen, here, fail]

theorem get_agrees (h : Sound lexer caching n parser) :
    Answers lexer caching n (Request.outcome lexer fuel .get parser.cursor) (get parser) := by
  have hget : get parser = Step.andThen (peek parser) fun t parser =>
      (.ok t, parser.moveTo (parser.cursor + 1)) := by
    rw [get]
    rcases peek parser with ⟨e | t, parser⟩ <;> rfl
  rw [hget, Request.outcome]
  refine (peek_agrees h).andThen fun t parser' ht hc hsound => ?_
  obtain ⟨hstop, hreach⟩ := tokenAt_reach lexer parser.cursor t ht
  exact agrees_ok (hsound.moveTo (by omega)) t

theorem isAt_agrees (h : Sound lexer caching n parser) (kind : TokenKind) :
    Answers lexer caching n (Request.outcome lexer fuel (.isAt kind) parser.cursor)
      (isAt kind parser) := by
  have hisAt : isAt kind parser = Step.andThen (peek parser) fun t parser =>
      (.ok (t.kind = kind : Bool), parser) := by
    rw [isAt]
    rcases peek parser with ⟨e | t, parser⟩ <;> rfl
  rw [hisAt, Request.outcome]
  exact (peek_agrees h).andThen fun t parser' _ _ hsound => agrees_ok hsound _

theorem isNotAt_agrees (h : Sound lexer caching n parser) (kind : TokenKind) :
    Answers lexer caching n (Request.outcome lexer fuel (.isNotAt kind) parser.cursor)
      (isNotAt kind parser) := by
  have hisNotAt : isNotAt kind parser = Step.andThen (peek parser) fun t parser =>
      (.ok !(t.kind = kind : Bool), parser) := by
    rw [isNotAt, isAt]
    rcases peek parser with ⟨e | t, parser⟩ <;> rfl
  rw [hisNotAt, Request.outcome]
  exact (peek_agrees h).andThen fun t parser' _ _ hsound => agrees_ok hsound _

theorem maybeToken_agrees (h : Sound lexer caching n parser) (kind : TokenKind) :
    Answers lexer caching n (Request.outcome lexer fuel (.maybeToken kind) parser.cursor)
      (maybeToken caching fuel kind parser) := by
  have hmaybe : maybeToken caching fuel kind parser =
      Step.andThen (expectWith caching fuel (.token kind) parser) fun result after =>
        match result with
        | none => (.ok none, after.moveTo parser.cursor)
        | some t => (.ok (some t), after) := by
    rw [maybeToken]
    rcases expectWith caching fuel (.token kind) parser with ⟨e | _ | t, after⟩ <;> rfl
  rw [hmaybe, Request.outcome]
  refine (expectWith_agrees _ h).andThen fun result after _ _ hsound => ?_
  cases result with
  | none => exact agrees_ok (hsound.moveTo (h.cursor_le.trans (Nat.le_max_left _ _))) none
  | some t => exact agrees_ok hsound (some t)

theorem tokens_agrees (h : Sound lexer caching n parser) (kind : TokenKind) (least : Nat) :
    Answers lexer caching n (Request.outcome lexer fuel (.tokens kind least) parser.cursor)
      (tokens caching fuel kind least parser) := by
  have htokens : tokens caching fuel kind least parser =
      Step.andThen (repeatedly (expectWith caching fuel (.token kind)) fuel parser)
        fun tokens after =>
          if least ≤ tokens.length then (.ok (some tokens), after)
          else (.ok none, after.moveTo parser.cursor) := by
    rw [tokens]
    rcases repeatedly (expectWith caching fuel (.token kind)) fuel parser with ⟨e | ts, after⟩ <;>
      rfl
  rw [htokens, Request.outcome]
  refine (repeatedly_agrees 0 (fun pos => (lexer.comesTo_advances _ _ pos).toWithin)
    (fun n after _ hafter => expectWith_agrees _ hafter) fuel n parser (Nat.zero_le _) h).andThen
      fun ts after _ _ hsound => ?_
  split
  · exact agrees_ok hsound _
  · exact agrees_ok (hsound.moveTo (h.cursor_le.trans (Nat.le_max_left _ _))) none

/-- A cursor that is put anywhere has to be put before what is not read. -/
def Request.Admissible (n : Nat) : Request → Prop
  | .reset pos => pos ≤ n
  | .tokens kind _ => kind ≠ .endMarker
  | _ => True

instance (n : Nat) : (request : Request) → Decidable (request.Admissible n)
  | .reset pos => inferInstanceAs (Decidable (pos ≤ n))
  | .tokens kind _ => inferInstanceAs (Decidable (kind ≠ .endMarker))
  | .mark | .peek | .get | .isAt _ | .isNotAt _ | .rule _ | .token _ | .maybeToken _ =>
    .isTrue trivial

/-- A parser answers a request as the items say, with or without a cache. -/
theorem answerWith_agrees (fuel : Nat) (h : Sound lexer caching n parser) (request : Request)
    (hadmissible : request.Admissible n) :
    Answers lexer caching n (request.outcome lexer fuel parser.cursor)
      (answerWith caching fuel request parser) := by
  cases request with
  | mark => exact agrees_ok h _
  | reset pos => exact agrees_ok (h.moveTo hadmissible) ()
  | peek => exact peek_agrees h
  | get => exact get_agrees h
  | isAt kind => exact isAt_agrees h kind
  | isNotAt kind => exact isNotAt_agrees h kind
  | rule r => exact callWith_agrees r h
  | token kind => exact expectWith_agrees _ h
  | maybeToken kind => exact maybeToken_agrees h kind
  | tokens kind least => exact tokens_agrees h kind least

/-- A parser has fuel enough for a request. -/
theorem Request.outcome_finishes {wall pos : Nat}
    (hwall : Wall lexer.item (fun t => t.kind = .endMarker) wall) (hpos : pos ≤ wall)
    (hfuel : fuelFor wall pos ≤ fuel) (request : Request) (hadmissible : request.Admissible n) :
    (request.outcome lexer fuel pos).Finishes := by
  have htoken : (lexer.tokenAt pos).Finishes := by
    refine (lookAt_finishes _ _).andThen fun item hitem => ?_
    cases item with
    | some t => exact finishes_here t _
    | none => exact absurd (lookAt_ensures _ _ _ hitem).1 (Lexer.item_ne_none pos)
  cases request with
  | mark => exact finishes_here _ _
  | reset target => exact finishes_here _ _
  | peek => exact htoken
  | get => exact htoken.andThen fun _ _ => finishes_here _ _
  | isAt kind => exact htoken.andThen fun _ _ => finishes_here _ _
  | isNotAt kind => exact htoken.andThen fun _ _ => finishes_here _ _
  | rule r => exact (Lexer.comesTo_finishes hwall hpos hfuel).map _
  | token kind => exact Lexer.comesTo_finishes hwall hpos hfuel
  | maybeToken kind =>
    refine (Lexer.comesTo_finishes hwall hpos hfuel).andThen fun result _ => ?_
    cases result <;> exact finishes_here _ _
  | tokens kind least =>
    have hkind : Rule.token kind ≠ .token .endMarker := fun h => hadmissible (Rule.token.inj h)
    unfold fuelFor at hfuel
    refine (repeated_finishes pos (fun pos => (lexer.comesTo_advances _ _ pos).toWithin)
      (fun pos => Lexer.comesTo_upTo hwall fuel hkind)
      (fun pos' hle hpos' => Lexer.comesTo_finishes hwall hpos' ?_) fuel pos (Nat.le_refl _) hpos
      (by omega)).andThen fun tokens _ => ?_
    · unfold fuelFor
      omega
    · dsimp only
      split <;> exact finishes_here _ _

end

end Parser

/-! ## Scripts -/

/-- The script with the lines from a position on, as many as there are. -/
def linesOutcome (line : Nat → Outcome Blame ScriptError (Option Line)) :
    Nat → Script → Nat → Outcome Blame ScriptError Script
  | 0, _, pos => .fail .outOfFuel pos
  | rounds + 1, script, pos =>
    (line pos).andThen fun next stop =>
      match next with
      | none => .here script stop
      | some next =>
        match Parser.addLine script next with
        | .ok script => linesOutcome line rounds script stop
        | .error blame => .fail (.complaint blame) stop

/-- The lines from a position on up to the end marker. -/
def Lexer.scriptOutcome (lexer : Lexer) (fuel : Nat) (pos : Nat) :
    Outcome Blame ScriptError (Option Script) :=
  (linesOutcome (lexer.comesTo fuel .scriptLine) fuel .empty pos).andThen fun script stop =>
    (lexer.comesTo fuel (.token .endMarker) stop).andThen fun mark stop =>
      match mark with
      | some _ => .here (some script) stop
      | none => .here none pos

/-- The error for lines that no rule fits, when `n` tokens have been read. -/
def Lexer.diagnosis (lexer : Lexer) (n : Nat) (last : Token) : ScriptError :=
  match (lexer.after n).toEnd.failure with
  | some e => e
  | none => .located ((lexer.after n).toEnd.final.blame .unrecognized last)

/-- The result of reading a script, when `n` tokens were read before. -/
def Lexer.verdict (lexer : Lexer) (n : Nat) (o : Outcome Blame ScriptError (Option Script)) :
    Except (Halt ScriptError) Script :=
  match o.answer with
  | .ok (some script) => .ok script
  | .ok none =>
    match lexer.item (max n o.reach - 1) with
    | .ok (some last) => .error (.fatal (lexer.diagnosis (max n o.reach) last))
    | .ok none => .error .outOfFuel
    | .error e => .error (.fatal e)
  | .error (.item e) => .error (.fatal e)
  | .error (.complaint blame) =>
    .error (.fatal (.located ((lexer.after (max n o.reach)).blame blame.cause blame.token)))
  | .error .outOfFuel => .error .outOfFuel

section

variable {lexer : Lexer} {caching : Bool} {n fuel wall pos : Nat} {parser : Parser}

theorem linesOutcome_finishes (hwall : Wall lexer.item (fun t => t.kind = .endMarker) wall) :
    ∀ rounds script pos, pos ≤ wall → fuelFor wall pos ≤ fuel → wall < pos + rounds →
      (linesOutcome (lexer.comesTo fuel .scriptLine) rounds script pos).Finishes
  | 0, _, pos, h, _, hr => absurd hr (by omega)
  | rounds + 1, script, pos, h, hfuel, hr => by
    have hupTo := Lexer.comesTo_upTo hwall fuel (r := .scriptLine) (by simp) h
    refine (Lexer.comesTo_finishes hwall h hfuel).andThen fun next hnext => ?_
    cases next with
    | none => exact finishes_here _ _
    | some next =>
      -- a line takes a token
      have hlt := (lexer.comesTo_advances fuel .scriptLine pos).lt_stop rfl _ hnext rfl
      have hle := hupTo.stop_le _ hnext
      dsimp only
      split
      · refine linesOutcome_finishes hwall rounds _ _ hle ?_ (by omega)
        unfold fuelFor at *
        omega
      · simp [Finishes, Outcome.fail]

theorem linesOutcome_upTo (hwall : Wall lexer.item (fun t => t.kind = .endMarker) wall) :
    ∀ rounds script pos, pos ≤ wall →
      (linesOutcome (lexer.comesTo fuel .scriptLine) rounds script pos).UpTo wall
  | 0, _, _, h => upTo_fail _ h
  | rounds + 1, script, pos, h => by
    refine (Lexer.comesTo_upTo hwall fuel (by simp) h).andThen fun next _ hle => ?_
    cases next with
    | none => exact upTo_here _ hle
    | some next =>
      dsimp only
      split
      · exact linesOutcome_upTo hwall rounds _ _ hle
      · exact upTo_fail _ hle

theorem Lexer.lines_finish (hwall : Wall lexer.item (fun t => t.kind = .endMarker) wall)
    (hpos : pos ≤ wall) (hfuel : fuelFor wall pos ≤ fuel) :
    (linesOutcome (lexer.comesTo fuel .scriptLine) fuel .empty pos).Finishes :=
  linesOutcome_finishes hwall fuel .empty pos hpos hfuel (by unfold fuelFor at hfuel; omega)

/-- A parser has fuel enough for a script. -/
theorem Lexer.scriptOutcome_finishes
    (hwall : Wall lexer.item (fun t => t.kind = .endMarker) wall) (hpos : pos ≤ wall)
    (hfuel : fuelFor wall pos ≤ fuel) : (lexer.scriptOutcome fuel pos).Finishes := by
  refine (Lexer.lines_finish hwall hpos hfuel).andThen fun script _ => ?_
  obtain ⟨fuel, rfl⟩ :=
    Nat.exists_eq_succ_of_ne_zero (show fuel ≠ 0 by unfold fuelFor at hfuel; omega)
  rw [Lexer.comesTo_token]
  refine (takeAt_finishes _ _ _).andThen fun mark _ => ?_
  cases mark <;> exact finishes_here _ _

/-- After the lines of a script there has to be an end marker. -/
theorem Lexer.scriptOutcome_eq_some_iff (hfuel : fuel ≠ 0) {script : Script} :
    let lines := linesOutcome (lexer.comesTo fuel .scriptLine) fuel .empty pos
    (lexer.scriptOutcome fuel pos).answer = .ok (some script) ↔
      lines.answer = .ok script ∧
        ∃ mark, lexer.item lines.stop = .ok (some mark) ∧ mark.kind = .endMarker := by
  obtain ⟨fuel, rfl⟩ := Nat.exists_eq_succ_of_ne_zero hfuel
  intro lines
  change (lines.andThen _).answer = _ ↔ _
  cases hlines : lines.answer with
  | error e => simp [andThen_error hlines]
  | ok script' =>
    rw [andThen_ok hlines, Lexer.comesTo_token, takeAt, lookAt]
    rcases lexer.item lines.stop with e | _ | mark
    · simp [thenMatch, andThen]
    · simp [thenMatch, andThen, here]
    · by_cases hkind : mark.kind = .endMarker <;> simp [thenMatch, andThen, here, hkind]

theorem Lexer.verdict_ne_outOfFuel {o : Outcome Blame ScriptError (Option Script)}
    (hf : o.Finishes) : lexer.verdict n o ≠ .error .outOfFuel := by
  unfold Lexer.verdict
  rcases ho : o.answer with (e | blame | _) | _ | script
  · simp
  · simp
  · exact absurd ho hf
  · rcases hitem : lexer.item (max n o.reach - 1) with e | _ | last
    · simp
    · exact absurd hitem (Lexer.item_ne_none _)
    · simp
  · simp

namespace Parser

theorem addLines_succ (line : Parser → Reply (Option Line)) (rounds : Nat) (script : Script)
    (parser : Parser) :
    addLines line (rounds + 1) script parser =
      Step.andThen (line parser) fun next parser =>
        match next with
        | none => (.ok script, parser)
        | some next =>
          match addLine script next with
          | .ok script => addLines line rounds script parser
          | .error blame => (.error (.fatal (TokenFeed.report blame parser.feed)), parser) := by
  rw [addLines]
  rcases line parser with ⟨e | _ | next, parser⟩ <;> rfl

theorem script_eq (caching : Bool) (fuel : Nat) (parser : Parser) :
    script caching fuel parser =
      Step.andThen (addLines (expectWith caching fuel .scriptLine) fuel .empty parser)
        fun script after =>
          Step.andThen (expectWith caching fuel (.token .endMarker) after) fun mark after =>
            match mark with
            | some _ => (.ok (some script), after)
            | none => (.ok none, after.moveTo parser.cursor) := by
  rw [script]
  rcases addLines (expectWith caching fuel .scriptLine) fuel .empty parser with ⟨e | lines, after⟩
  · rfl
  · dsimp only [Step.andThen]
    rcases expectWith caching fuel (.token .endMarker) after with ⟨e | _ | mark, after⟩ <;> rfl

theorem addLines_agrees {line : Nat → Outcome Blame ScriptError (Option Line)}
    {line' : Parser → Reply (Option Line)}
    (hline : ∀ n parser, Sound lexer caching n parser →
      Answers lexer caching n (line parser.cursor) (line' parser)) :
    ∀ rounds script n parser, Sound lexer caching n parser →
      Answers lexer caching n (linesOutcome line rounds script parser.cursor)
        (addLines line' rounds script parser)
  | 0, _, _, _, _ => trivial
  | rounds + 1, script, n, parser, h => by
    rw [addLines_succ, linesOutcome]
    refine (hline n parser h).andThen fun next parser' _ _ hsound => ?_
    cases next with
    | none => exact agrees_ok hsound script
    | some next =>
      dsimp only
      cases addLine script next with
      | ok script => exact addLines_agrees hline rounds script _ parser' hsound
      | error blame =>
        refine ⟨?_, rfl⟩
        have hreport := (TokenFeed.view lexer).report_eq blame hsound.holds
        have hmax := Nat.max_eq_left hsound.cursor_le
        dsimp only [Outcome.fail]
        rw [hmax, ← hreport]
        rfl

theorem script_agrees (fuel : Nat) (h : Sound lexer caching n parser) :
    Answers lexer caching n (lexer.scriptOutcome fuel parser.cursor)
      (script caching fuel parser) := by
  rw [script_eq, Lexer.scriptOutcome]
  refine (addLines_agrees (fun n parser h => expectWith_agrees _ h) fuel .empty n parser h).andThen
    fun script after _ _ hsound => ?_
  refine (expectWith_agrees _ hsound).andThen fun mark after' _ _ hsound' => ?_
  cases mark with
  | some _ => exact agrees_ok hsound' _
  | none =>
    exact agrees_ok (hsound'.moveTo ((h.cursor_le.trans (Nat.le_max_left _ _)).trans
      (Nat.le_max_left _ _))) none

theorem mapTrace_sound (h : Sound lexer caching n parser) (f : Trace → Trace) :
    Sound lexer caching n (mapTrace f parser) :=
  { h with holds := TokenFeed.Holds.mapTrace h.holds f }

theorem diagnose_eq (h : Sound lexer caching n parser) (hn : 0 < n) :
    ∃ last, lexer.item (n - 1) = .ok (some last) ∧
      diagnose parser = .fatal (lexer.diagnosis n last) := by
  have hholds : parser.feed.Holds lexer n := h.holds
  obtain ⟨last, hback⟩ : ∃ last, parser.feed.tokens.back? = some last := by
    have hlt : n - 1 < parser.feed.tokens.size := by
      rw [hholds.size_eq]
      omega
    rw [Array.back?, hholds.size_eq]
    exact ⟨_, Array.getElem?_eq_getElem hlt⟩
  refine ⟨last, hholds.item_eq _ _ (by rwa [Array.back?, hholds.size_eq] at hback), ?_⟩
  rw [diagnose, lastToken, hback, Lexer.diagnosis]
  dsimp only
  rw [hholds.lexer_eq]
  cases (lexer.after n).toEnd.failure <;> rfl

/-- A script that does not end where it should has been looked at. -/
theorem reach_pos_of_answer_none (hfuel : fuel ≠ 0)
    (h : (lexer.scriptOutcome fuel pos).answer = .ok none) :
    0 < (lexer.scriptOutcome fuel pos).reach := by
  obtain ⟨fuel, rfl⟩ := Nat.exists_eq_succ_of_ne_zero hfuel
  unfold Lexer.scriptOutcome at *
  set lines := linesOutcome (lexer.comesTo (fuel + 1) .scriptLine) (fuel + 1) .empty pos
  cases hlines : lines.answer with
  | error e => simp [andThen_error hlines] at h
  | ok script =>
    rw [andThen_ok hlines, Lexer.comesTo_token]
    refine Nat.lt_of_lt_of_le ?_ (Nat.le_max_right _ _)
    refine Nat.lt_of_lt_of_le ?_ (reach_le_andThen _ _)
    refine Nat.lt_of_lt_of_le ?_ (reach_le_andThen _ _)
    unfold lookAt
    split <;> exact Nat.succ_pos _

/-- A parser reads from its cursor on what the items say, with or without a cache. -/
theorem parseWith_eq (h : Sound lexer caching n parser)
    (hf : (lexer.scriptOutcome fuel parser.cursor).Finishes) :
    (parseWith caching fuel parser).1 =
      lexer.verdict n (lexer.scriptOutcome fuel parser.cursor) := by
  have hagrees := script_agrees fuel (mapTrace_sound h (·.attempt "start"))
  have hfuel : fuel ≠ 0 := by
    rintro rfl
    simp [Lexer.scriptOutcome, linesOutcome, Finishes, andThen, Outcome.fail] at hf
  have hcursor : (mapTrace (·.attempt "start") parser).cursor = parser.cursor := rfl
  rw [hcursor] at hagrees
  rw [parseWith, Lexer.verdict]
  rcases hrun : script caching fuel (mapTrace (·.attempt "start") parser) with ⟨answer, after⟩
  rw [hrun] at hagrees
  unfold Answers Agrees at hagrees
  rcases ho : (lexer.scriptOutcome fuel parser.cursor).answer with (e | blame | _) | _ | result
  · rw [ho] at hagrees
    obtain ⟨rfl, -⟩ := hagrees
    rfl
  · rw [ho] at hagrees
    obtain ⟨rfl, -⟩ := hagrees
    rfl
  · exact absurd ho hf
  · rw [ho] at hagrees
    obtain ⟨rfl, -, hsound⟩ := hagrees
    have hreach := reach_pos_of_answer_none hfuel ho
    obtain ⟨last, hlast, hdiagnose⟩ := diagnose_eq hsound (by omega)
    simp only [hlast, hdiagnose]
  · rw [ho] at hagrees
    obtain ⟨rfl, -⟩ := hagrees
    rfl

end Parser

end

/-! ## Reading a source -/

theorem fuelFor_le_fuel_ofLexer {lexer : Lexer} {wall : Nat} (h : wall ≤ lexer.remaining) :
    fuelFor wall 0 ≤ Parser.fuel (.ofLexer lexer) := by
  simp only [fuelFor, Parser.fuel, Parser.ofLexer, List.size_toArray, List.length_nil]
  omega

/-- What is read from a source is the verdict on what its items come to. -/
theorem Script.ofSource_eq_verdict (source : Source) :
    Script.ofSource source = (Lexer.ofSource source).verdict 0
      ((Lexer.ofSource source).scriptOutcome (Parser.fuel (.ofLexer (.ofSource source))) 0) := by
  obtain ⟨wall, hwall, hends⟩ := (Lexer.ofSource source).exists_endsAt
  exact Parser.parseWith_eq (Parser.sound_ofLexer (.ofSource source) true none)
    (Lexer.scriptOutcome_finishes hends.wall (Nat.zero_le wall) (fuelFor_le_fuel_ofLexer hwall))

theorem Lexer.verdict_eq_ok_iff {lexer : Lexer} {n : Nat}
    {o : Outcome Blame ScriptError (Option Script)} {script : Script} :
    lexer.verdict n o = .ok script ↔ o.answer = .ok (some script) := by
  unfold Lexer.verdict
  rcases o.answer with (e | blame | _) | _ | script'
  · simp
  · simp
  · simp
  · rcases lexer.item (max n o.reach - 1) with e | _ | last <;> simp
  · simp

end OpticScript
