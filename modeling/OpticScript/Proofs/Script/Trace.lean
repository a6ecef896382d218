import OpticScript.Proofs.Parser.Below
import OpticScript.Proofs.Parser.Trace

/-!
# Traces of whole scripts

Keeping a trace does no harm : a script is read the same with one. And the trace is faithful
(`Script.ofSourceTraced_narrates`) : its first event attempts `start`, every event fits the stack of
rules that the events before it have built, and the stack that is left at the end holds the rules
that were being tried when the parse ended. There are none if the script was read, or if no rule
fits a line, and then the last event is the success of `start` behind the last token, or its
failure. Otherwise they are those that the error has ended (`Parser.parseBacktraced`).
-/

namespace OpticScript

open Packrat Packrat.Outcome

namespace Parser

/-! ## Reading with backtraces -/

/-- The lines of a script as `addLines` adds them; an error comes with the rules that it has
ended. -/
def addLinesBacktraced (line : Parser → TracedReply (Option Line)) :
    Nat → Script → Parser → TracedReply Script
  | 0, _, parser => (.error .outOfFuel, parser)
  | rounds + 1, script, parser =>
    Step.andThen (line parser) fun next parser =>
      match next with
      | none => (.ok script, parser)
      | some next =>
        match addLine script next with
        | .ok script => addLinesBacktraced line rounds script parser
        | .error blame =>
          (.error (.fatal { error := TokenFeed.report blame parser.feed, rules := [] }), parser)

/-- Runs a rule and takes its result out of the node; an error comes with the rules that it has
ended. -/
def expectBacktraced (caching : Bool) (fuel : Nat) (rule : Rule) :
    Parser → TracedReply (Option rule.Result) :=
  expect Rule.nodes rule
    (callBacktraced (scriptGrammar caching) Rule.nodes TokenFeed.feed fuel rule)

/-- The lines at the cursor up to the end marker; an error comes with the rules that it has
ended. -/
def scriptBacktraced (caching : Bool) (fuel : Nat) (parser : Parser) :
    TracedReply (Option Script) :=
  let line := expectBacktraced caching fuel .scriptLine
  Step.andThen (addLinesBacktraced line fuel .empty parser) fun script after =>
    Step.andThen (expectBacktraced caching fuel (.token .endMarker) after) fun mark after =>
      match mark with
      | some _ => (.ok (some script), after)
      | none => (.ok none, after.moveTo parser.cursor)

/-- Reads a script as `parseWith` does. An error comes with the names of the rules that were
being tried when it arose, the outermost first. If it is found after the parse because no rule
fits a line, there are none. -/
def parseBacktraced (caching : Bool) (fuel : Nat) (parser : Parser) :
    Except (Halt (Backtrace String ScriptError)) Script :=
  match scriptBacktraced caching fuel (mapTrace (·.attempt "start") parser) with
  | (.error halt, _) => .error (halt.map fun backtrace =>
      { error := backtrace.error, rules := "start" :: backtrace.rules.map Rule.label })
  | (.ok (some script), _) => .ok script
  | (.ok none, after) => .error ((diagnose after).map fun error => { error, rules := [] })

section

variable {caching : Bool} {fuel : Nat} {stack : RulePath}

theorem withError_addLinesBacktraced {line : Parser → TracedReply (Option Line)}
    {line' : Parser → Reply (Option Line)}
    (hline : ∀ parser, withError Backtrace.error (line parser) = line' parser) :
    ∀ rounds script parser,
      withError Backtrace.error (addLinesBacktraced line rounds script parser) =
      addLines line' rounds script parser
  | 0, _, _ => rfl
  | rounds + 1, script, parser => by
    rw [addLines_succ, addLinesBacktraced]
    refine withError_andThen_eq (hline parser) fun next after => ?_
    cases next with
    | none => rfl
    | some next =>
      dsimp only
      cases addLine script next with
      | ok script' => exact withError_addLinesBacktraced hline rounds script' after
      | error blame => rfl

theorem withError_expectBacktraced (caching : Bool) (fuel : Nat) (rule : Rule) (parser : Parser) :
    withError Backtrace.error (expectBacktraced caching fuel rule parser) =
      expectWith caching fuel rule parser := by
  rw [expectWith, expectBacktraced, expect_eq, expect_eq]
  exact withError_andThen_eq (withError_callBacktraced _ _ _ fuel rule parser) fun _ _ => rfl

/-- Without its backtrace a script is what the parser reads. -/
theorem withError_scriptBacktraced (caching : Bool) (fuel : Nat) (parser : Parser) :
    withError Backtrace.error (scriptBacktraced caching fuel parser) =
      script caching fuel parser := by
  have hcall := withError_expectBacktraced caching fuel
  rw [script_eq, scriptBacktraced]
  refine withError_andThen_eq
    (withError_addLinesBacktraced (hcall .scriptLine) fuel .empty parser) fun lines after => ?_
  refine withError_andThen_eq (hcall (.token .endMarker) after) fun mark after' => ?_
  cases mark <;> rfl

theorem addLinesBacktraced_narrates {line : Parser → TracedReply (Option Line)}
    (hline : ∀ parser, Narrates stack parser (line parser)) :
    ∀ rounds script parser, Narrates stack parser (addLinesBacktraced line rounds script parser)
  | 0, _, _ => narrates_outOfFuel rfl
  | rounds + 1, script, parser => by
    rw [addLinesBacktraced]
    refine (hline parser).andThen fun next after => ?_
    cases next with
    | none => exact narrates_ok rfl script
    | some next =>
      dsimp only
      cases addLine script next with
      | ok script' => exact addLinesBacktraced_narrates hline rounds script' after
      | error blame => exact narrates_error rfl _

theorem scriptBacktraced_narrates (caching : Bool) (fuel : Nat) (stack : RulePath)
    (parser : Parser) : Narrates stack parser (scriptBacktraced caching fuel parser) := by
  have hcall :
      ∀ rule parser, Narrates stack parser (expectBacktraced caching fuel rule parser) := by
    intro rule parser
    rw [expectBacktraced, expect_eq]
    exact (callBacktraced_narrates _ fuel rule stack parser).andThen fun _ _ => narrates_ok rfl _
  refine (addLinesBacktraced_narrates (hcall .scriptLine) fuel .empty parser).andThen
    fun lines after => (hcall (.token .endMarker) after).andThen fun mark after' => ?_
  cases mark with
  | none => exact narrates_ok rfl none
  | some _ => exact narrates_ok rfl _

end

/-- The error of a script that no rule fits. -/
theorem diagnose_fatal (parser : Parser) : ∃ e, diagnose parser = .fatal e := by
  have hpeek : ∀ after, lastToken parser ≠ (.error .outOfFuel, after) := by
    intro after
    unfold lastToken peek
    split
    · simp
    · rcases parser.feed.token parser.cursor with ⟨e | t, feed⟩ <;> simp
  unfold diagnose
  rcases hlast : lastToken parser with ⟨(e | _) | t, after⟩
  · exact ⟨e, rfl⟩
  · exact absurd hlast (hpeek after)
  · dsimp only
    split
    · exact ⟨_, rfl⟩
    · exact ⟨_, rfl⟩

/-- What the events of a parse show that has come to this result : none of them is out of place,
and the rules that are left open are those that the error has ended. If there are none, the last
event tells whether the script was read, and that it was read up to the cursor. -/
structure Tells (result : Except (Halt ScriptError) Script)
    (backtraced : Except (Halt (Backtrace String ScriptError)) Script) (cursor : Nat)
    (events : List TraceEvent) : Prop where
  head : events.head? = some (.attempt ["start"])
  ok : ∀ script, result = .ok script →
    replay [] events = some [] ∧ events.getLast? = some (.success ["start"] cursor)
  error : ∀ e, result = .error (.fatal e) → ∃ rules,
    backtraced = .error (.fatal { error := e, rules }) ∧ replay [] events = some rules.reverse ∧
      (rules = [] → events.getLast? = some (.failure ["start"]))

/-- A parser with an empty trace tells what becomes of the script. -/
theorem parseWith_tells (caching : Bool) (fuel : Nat) {parser : Parser}
    (htrace : parser.feed.trace = some {})
    (hend : (parseWith caching fuel parser).1 ≠ .error .outOfFuel) : ∃ events path,
      (parseWith caching fuel parser).2.feed.trace = some { path, events := events.toArray } ∧
        Tells (parseWith caching fuel parser).1 (parseBacktraced caching fuel parser)
          (parseWith caching fuel parser).2.cursor events := by
  set begun := mapTrace (·.attempt "start") parser with hbegun
  have hattempt : begun.feed.trace =
      some { path := ["start"], events := [TraceEvent.attempt ["start"]].toArray } := by
    simp [hbegun, mapTrace, TokenFeed.mapTrace, htrace, Trace.attempt]
  obtain ⟨events, hevents, hleads⟩ :=
    scriptBacktraced_narrates caching fuel ["start"] begun _ hattempt
  have hrun := withError_scriptBacktraced caching fuel begun
  rw [parseWith, ← hbegun, ← hrun] at hend ⊢
  rw [parseBacktraced, ← hbegun]
  rcases hanswer : scriptBacktraced caching fuel begun
    with ⟨(backtrace | _) | _ | script, after⟩ <;>
    rw [hanswer] at hevents hleads hend <;> dsimp only [withError, Except.mapError, Halt.map] at *
  · -- the error has ended some rules, and the script
    refine ⟨_, _, hevents, rfl, by simp, fun e he => ?_⟩
    obtain rfl : backtrace.error = e := by simpa using he
    refine ⟨_, rfl, (replay_attempt [] "start" events).trans (hleads.trans ?_), by simp⟩
    simp [Backtrace.path]
  · exact absurd rfl hend
  · -- the script has failed before its error is looked for
    obtain ⟨e, hdiagnose⟩ := diagnose_fatal after
    refine ⟨.attempt ["start"] :: events ++ [.failure ["start"]], [], ?_, rfl, by simp,
      fun e' he => ?_⟩
    · simp [mapTrace, TokenFeed.mapTrace, hevents, Trace.failure]
    · rw [hdiagnose] at he ⊢
      obtain rfl : e = e' := by simpa using he
      refine ⟨[], rfl, ?_, fun _ => List.getLast?_concat⟩
      rw [List.cons_append, replay_attempt, replay_append, hleads]
      exact replay_failure [] "start"
  · refine ⟨.attempt ["start"] :: events ++ [.success ["start"] after.cursor], [], ?_, rfl,
      fun _ _ => ⟨?_, List.getLast?_concat⟩, by simp⟩
    · simp [mapTrace, TokenFeed.mapTrace, hevents, Trace.success]
    · rw [List.cons_append, replay_attempt, replay_append, hleads]
      exact replay_success [] "start" after.cursor

end Parser

/-! ## Lines that no rule fits -/

theorem Cause.Lexical.message_ne {cause : Cause} (h : cause.Lexical) :
    cause.message ≠ "syntax error" := by
  intro heq
  have hfirst := congrArg (·.toList.head?) heq
  cases h with
  | illegalCharacter c =>
    change ("illegal character '" ++ Text.shown c ++ "'").toList.head? = _ at hfirst
    simp at hfirst
  | invalidNumber =>
    change "invalid number literal".toList.head? = _ at hfirst
    simp at hfirst
  | extraneous bracket =>
    change ("extraneous '" ++ bracket ++ "'").toList.head? = _ at hfirst
    simp at hfirst
  | unclosed bracket =>
    change ("unclosed '" ++ bracket ++ "'").toList.head? = _ at hfirst
    simp at hfirst

theorem Cause.Grammatical.message_ne {cause : Cause} (h : cause.Grammatical) :
    cause.message ≠ "syntax error" := by
  cases h <;> decide

namespace Lexer

variable {lexer : Lexer} {e : ScriptError}

theorem nextToken_error (h : lexer.nextToken.1 = .error e) :
    e.Lexical ∨ ∃ source line, e = .unreadable source line := by
  obtain ⟨start, -, -, ⟨c, tail, -, hreply⟩ | ⟨-, -, hreply⟩ | ⟨more, -, -, hreply⟩⟩ :=
    nextTokenFrom_cases (P := fun _ => True) (fun _ _ => trivial) (fun _ _ _ _ _ _ => trivial)
      lexer.unread rfl trivial <;>
    rw [nextToken, hreply] at h
  · obtain ⟨cause, t, openers, hcause, -, -, heq⟩ | ⟨_, _, t, -, -, -, heq⟩ := start.scan_cases c
    · rw [heq] at h
      obtain rfl := Except.error.inj h
      exact .inl ⟨_, rfl, hcause⟩
    · simp [heq] at h
  · obtain ⟨opener, -, heq⟩ | ⟨-, -, heq⟩ | ⟨-, -, heq⟩ := start.finish_cases <;> rw [heq] at h
    · obtain rfl := Except.error.inj h
      exact .inl ⟨_, rfl, .unclosed _⟩
    · simp at h
    · simp at h
  · obtain rfl := Except.error.inj h
    exact .inr ⟨_, _, rfl⟩

/-- An error in the place of a token has words of its own. -/
theorem message_ne_of_item {n : Nat} {d : Diagnostic} (h : lexer.item n = .error (.located d)) :
    d.message ≠ "syntax error" := by
  rcases nextToken_error (item_eq_error_iff.1 h) with ⟨d', hd, hcause⟩ | ⟨_, _, hd⟩
  · obtain rfl := ScriptError.located.inj hd
    exact hcause.message_ne
  · simp at hd

/-- And so has an error that the grammar finds. -/
theorem scriptOutcome_error {fuel pos : Nat} {fault : Fault Blame ScriptError}
    (h : (lexer.scriptOutcome fuel pos).answer = .error fault) :
    match fault with
    | .item e => ∃ i, lexer.item i = .error e
    | .complaint blame => blame.cause.Grammatical
    | .outOfFuel => True := by
  set lines := linesOutcome (lexer.comesTo fuel .scriptLine) fuel .empty pos with hdef
  rw [Lexer.scriptOutcome, ← hdef] at h
  rcases hlines : lines.answer with fault' | script
  · rw [andThen_error hlines] at h
    obtain rfl := Except.error.inj h
    rcases fault' with e | blame | _
    · obtain ⟨i, -, hitem⟩ := linesOutcome_item hlines
      exact ⟨i, hitem⟩
    · exact (linesOutcome_complaint hlines).1
    · trivial
  · rw [andThen_ok hlines] at h
    rcases fuel with _ | fuel
    · simp [hdef, linesOutcome, Outcome.fail] at hlines
    · rw [comesTo_token, takeAt, lookAt] at h
      rcases hitem : lexer.item lines.stop with e | _ | mark <;> rw [hitem] at h
      · obtain rfl : Fault.item e = fault := by simpa [thenMatch, andThen] using h
        exact ⟨_, hitem⟩
      · simp [thenMatch, andThen, here] at h
      · by_cases hkind : mark.kind = .endMarker <;>
          simp [thenMatch, andThen, here, hkind] at h

/-- A script that is read ends behind the end marker. -/
theorem scriptOutcome_stop {wall fuel pos : Nat} (hends : lexer.EndsAt wall) (hpos : pos ≤ wall)
    (hfuel : fuel ≠ 0) {script : Script}
    (h : (lexer.scriptOutcome fuel pos).answer = .ok (some script)) :
    (lexer.scriptOutcome fuel pos).stop = wall + 1 ∧
      ∃ mark, lexer.item wall = .ok (some mark) ∧ mark.kind = .endMarker := by
  obtain ⟨hlines, mark, hmark, hkind⟩ := (scriptOutcome_eq_some_iff hfuel).1 h
  have hle := (linesOutcome_upTo hends.wall fuel .empty pos hpos).stop_le _ hlines
  obtain rfl := hends.eq_of_endMarker hle hmark hkind
  refine ⟨?_, mark, hmark, hkind⟩
  obtain ⟨fuel, rfl⟩ := Nat.exists_eq_succ_of_ne_zero hfuel
  rw [scriptOutcome, andThen_ok hlines, comesTo_token, takeAt, lookAt, hmark]
  simp [thenMatch, andThen, here, hkind]

end Lexer

namespace Parser

variable {lexer : Lexer} {caching : Bool} {n fuel : Nat} {parser : Parser}

/-- A parser that has read a script stops behind the end marker. -/
theorem parse_cursor {wall : Nat} (hends : lexer.EndsAt wall) (h : Sound lexer true n parser)
    (hpos : parser.cursor ≤ wall) (hf : (lexer.scriptOutcome parser.fuel parser.cursor).Finishes)
    {script : Script} (hok : (parse parser).1 = .ok script) :
    (parse parser).2.cursor = wall + 1 ∧
      ∃ mark, lexer.item wall = .ok (some mark) ∧ mark.kind = .endMarker := by
  rw [parse, parseWith_eq h hf, Lexer.verdict_eq_ok_iff] at hok
  have hstop := Lexer.scriptOutcome_stop hends hpos (by simp [Parser.fuel]) hok
  have hagrees := script_agrees parser.fuel (mapTrace_sound h (·.attempt "start"))
  have hcursor : (mapTrace (·.attempt "start") parser).cursor = parser.cursor := rfl
  rw [hcursor, Answers, Agrees, hok] at hagrees
  rcases hrun : Parser.script true parser.fuel (mapTrace (·.attempt "start") parser) with
    ⟨answer, after⟩
  rw [hrun] at hagrees
  obtain ⟨rfl, hafter, -⟩ := hagrees
  rw [parse, parseWith, hrun]
  exact ⟨hafter.trans hstop.1, hstop.2⟩

/-- If no rule fits a line, every rule is over when that is found. -/
theorem rules_of_unrecognized (h : Sound lexer caching n parser)
    (hf : (lexer.scriptOutcome fuel parser.cursor).Finishes) {d : Diagnostic} {rules : List String}
    (herror : parseBacktraced caching fuel parser = .error (.fatal { error := .located d, rules }))
    (hmessage : d.message = "syntax error") : rules = [] := by
  have hagrees := script_agrees fuel (mapTrace_sound h (·.attempt "start"))
  rw [← withError_scriptBacktraced] at hagrees
  rw [parseBacktraced] at herror
  rcases hrun : scriptBacktraced caching fuel (mapTrace (·.attempt "start") parser) with
    ⟨(backtrace | _) | _ | script, after⟩ <;> rw [hrun] at herror hagrees
  · have hlocated : backtrace.error = .located d := by
      simp only [Halt.map, Except.error.injEq, Halt.fatal.injEq, Backtrace.mk.injEq] at herror
      exact herror.1
    unfold Answers Agrees at hagrees
    have hcursor : (mapTrace (·.attempt "start") parser).cursor = parser.cursor := rfl
    rw [hcursor] at hagrees
    rcases ho : (lexer.scriptOutcome fuel parser.cursor).answer with (e | blame | _) | result <;>
      rw [ho] at hagrees
    · obtain rfl : backtrace.error = e := by
        simpa [withError, Except.mapError, Halt.map] using hagrees.1
      obtain ⟨i, hitem⟩ := Lexer.scriptOutcome_error ho
      rw [hlocated] at hitem
      exact absurd hmessage (Lexer.message_ne_of_item hitem)
    · obtain ⟨seen, hblame⟩ : ∃ seen, backtrace.error = (TokenFeed.view lexer).report seen blame :=
        ⟨_, by simpa [withError, Except.mapError, Halt.map] using hagrees.1⟩
      obtain rfl := ScriptError.located.inj (hlocated.symm.trans hblame)
      exact absurd hmessage (Cause.Grammatical.message_ne (Lexer.scriptOutcome_error ho))
    · exact absurd ho hf
    · simp [withError, Except.mapError] at hagrees
  · simp [Halt.map] at herror
  · obtain ⟨e, hdiagnose⟩ := diagnose_fatal after
    simp only [hdiagnose, Halt.map, Except.error.injEq, Halt.fatal.injEq, Backtrace.mk.injEq]
      at herror
    exact herror.2.symm
  · simp at herror

/-- If no rule fits a line, nothing is left open. -/
theorem Tells.closed (h : Sound lexer caching n parser)
    (hf : (lexer.scriptOutcome fuel parser.cursor).Finishes)
    {result : Except (Halt ScriptError) Script} {cursor : Nat} {events : List TraceEvent}
    (htells : Tells result (parseBacktraced caching fuel parser) cursor events) {d : Diagnostic}
    (hresult : result = .error (.fatal (.located d))) (hmessage : d.message = "syntax error") :
    replay [] events = some [] ∧ events.getLast? = some (.failure ["start"]) := by
  obtain ⟨rules, hrules, hreplay, hlast⟩ := htells.error _ hresult
  obtain rfl := rules_of_unrecognized h hf hrules hmessage
  exact ⟨hreplay, hlast rfl⟩

/-- A parser that has an empty trace, and fuel enough, tells all there is to tell. -/
theorem parse_tells (h : Sound lexer true n parser)
    (hf : (lexer.scriptOutcome parser.fuel parser.cursor).Finishes)
    (htrace : parser.feed.trace = some {}) :
    (parse parser).1 ≠ .error .outOfFuel ∧
      let events := ((parse parser).2.feed.trace.getD {}).events.toList
      Tells (parse parser).1 (parseBacktraced true parser.fuel parser) (parse parser).2.cursor
          events ∧
        ∀ d, (parse parser).1 = .error (.fatal (.located d)) → d.message = "syntax error" →
          replay [] events = some [] ∧ events.getLast? = some (.failure ["start"]) := by
  have hend : (parse parser).1 ≠ .error .outOfFuel := by
    rw [parse, parseWith_eq h hf]
    exact Lexer.verdict_ne_outOfFuel hf
  obtain ⟨told, path, hfinal, htells⟩ := parseWith_tells true parser.fuel htrace hend
  have hevents : ((parse parser).2.feed.trace.getD {}).events.toList = told := by
    rw [parse, hfinal]
    rfl
  refine ⟨hend, ?_⟩
  rw [hevents]
  exact ⟨htells, fun d hd hmessage => htells.closed h hf hd hmessage⟩

end Parser

namespace Script

/-- Reads a script and keeps a trace; an error comes with the names of the rules that were being
tried when it arose, the outermost first. -/
def ofSourceBacktraced (source : Source) : Except (Halt (Backtrace String ScriptError)) Script :=
  let parser := Parser.ofLexer (.ofSource source) (some {})
  Parser.parseBacktraced true parser.fuel parser

theorem fuel_ofLexer (lexer : Lexer) (trace : Option Trace) :
    Parser.fuel (.ofLexer lexer trace) = Parser.fuel (.ofLexer lexer) := rfl

theorem outcome_finishes (source : Source) (trace : Option Trace) :
    ((Lexer.ofSource source).scriptOutcome (Parser.fuel (.ofLexer (.ofSource source) trace))
      0).Finishes := by
  obtain ⟨wall, hwall, hends⟩ := (Lexer.ofSource source).exists_endsAt
  rw [fuel_ofLexer]
  exact Lexer.scriptOutcome_finishes hends.wall (Nat.zero_le wall) (fuelFor_le_fuel_ofLexer hwall)

/-- What is read does not depend on the trace. -/
theorem parse_traced (source : Source) (trace : Option Trace) :
    (Parser.parse (.ofLexer (.ofSource source) trace)).1 = ofSource source := by
  have hsound := Parser.sound_ofLexer (.ofSource source) true trace
  rw [ofSource_eq_verdict, Parser.parse, Parser.parseWith_eq hsound (outcome_finishes source trace),
    fuel_ofLexer]
  rfl

theorem ofSourceTraced_eq (source : Source) : ofSourceTraced source =
    ((Parser.parse (.ofLexer (.ofSource source) (some {}))).1,
      ((Parser.parse (.ofLexer (.ofSource source) (some {}))).2.feed.trace.getD {}).events) := by
  rw [ofSourceTraced]

/-- A script that is read is read to the end. -/
theorem cursor_of_parse {source : Source} {trace : Option Trace} {script : Script}
    (h : (Parser.parse (.ofLexer (.ofSource source) trace)).1 = .ok script) :
    (Parser.parse (.ofLexer (.ofSource source) trace)).2.cursor =
      (Lexer.ofSource source).toEnd.tokens.length := by
  obtain ⟨wall, -, hends⟩ := (Lexer.ofSource source).exists_endsAt
  obtain ⟨hcursor, mark, hmark, -⟩ := Parser.parse_cursor hends
    (Parser.sound_ofLexer (.ofSource source) true trace) (Nat.zero_le wall)
    (outcome_finishes source trace) h
  rcases hends.toEnd_cases with ⟨e, he, -⟩ | ⟨-, -, -, -, hlength, -⟩
  · simp [he] at hmark
  · rw [hcursor, hlength]

/-- A trace is harmless and faithful. With a trace a source is read the same, and there is a
result. The first event attempts `start`. If the script is read, or if its error is a syntax error,
each event fits the stack of rules that the ones before it have built, and at the end the stack is
empty : the last event is the success of `start` behind the last token, or its failure. With any
error each event fits as well, and the rules left on the stack are those that were being tried when
the error arose.

Every rule that is called, whatever the parse has come to, is told from its attempt to what its
answer makes of it : a success up to the cursor, a failure, or nothing if it is an error. What is
told in between fits the stack with the rule on it. -/
theorem ofSourceTraced_narrates (source : Source) :
    let result := (ofSourceTraced source).1
    let events := (ofSourceTraced source).2.toList
    result = ofSource source ∧ result ≠ .error .outOfFuel ∧
      events.head? = some (.attempt ["start"]) ∧
      (∀ script, result = .ok script → replay [] events = some [] ∧
        events.getLast? =
          some (.success ["start"] (Lexer.ofSource source).toEnd.tokens.length)) ∧
      (∀ d, result = .error (.fatal (.located d)) → d.message = "syntax error" →
        replay [] events = some [] ∧ events.getLast? = some (.failure ["start"])) ∧
      (∀ e, result = .error (.fatal e) → ∃ rules,
        ofSourceBacktraced source = .error (.fatal { error := e, rules }) ∧
          replay [] events = some rules.reverse ∧
          (rules = [] → events.getLast? = some (.failure ["start"]))) ∧
      ∀ fuel rule parser stack earlier,
        parser.feed.trace = some { path := stack, events := List.toArray earlier } →
        let reply := Parser.callWith true (fuel + 1) rule parser
        ∃ inner, reply.2.feed.trace = some { path := stack, events := (earlier ++
            (.attempt (rule.label :: stack) :: inner ++
              Parser.closing (rule.label :: stack) reply.2.cursor reply.1)).toArray } ∧
          ∀ node, reply.1 = .ok node →
            replay (rule.label :: stack) inner = some (rule.label :: stack) := by
  rw [ofSourceTraced_eq]
  obtain ⟨hend, htells, hclosed⟩ := Parser.parse_tells
    (Parser.sound_ofLexer (.ofSource source) true (some {})) (outcome_finishes source (some {})) rfl
  dsimp only
  refine ⟨parse_traced source (some {}), hend, htells.head, fun script hscript => ?_, hclosed,
    htells.error, fun fuel rule parser stack earlier htrace => ?_⟩
  · rw [← cursor_of_parse hscript]
    exact htells.ok script hscript
  · obtain ⟨inner, hevents, hinner, -⟩ := Parser.callWith_recounts true fuel rule htrace
    exact ⟨inner, hevents, hinner⟩

/-- The error at a character that begins no token. -/
def illegalMark : Diagnostic :=
  { cause := .illegalCharacter '?', source := "", line := 1, startColumn := 2, endColumn := 3,
    text := "?", context := some "+?" }

/-- Behind a plus sign such a character leaves open what is tried there. A failure and a success
have been told before. -/
theorem ofSourceTraced_narrates_illegal :
    let line := ["command", "script_line", "start"]
    let value := "value" :: "positional_value" :: "value_list" :: "command_params" :: line
    let tried := "LBRACE" :: "action" :: value
    let events := (ofSourceTraced (.ofText "" "+?")).2.toList
    events =
        [.attempt ["start"], .attempt ["script_line", "start"], .attempt line,
         .attempt ("NAME" :: line), .failure ("NAME" :: line),
         .attempt ("PLUS" :: line), .success ("PLUS" :: line) 1,
         .attempt ("command_params" :: line), .attempt ("value_list" :: "command_params" :: line),
         .attempt value.tail, .attempt value, .attempt ("action" :: value),
         .attempt ("action" :: "action" :: value), .failure ("action" :: "action" :: value),
         .attempt tried] ∧
      (ofSourceTraced (.ofText "" "+?")).1 = .error (.fatal (.located illegalMark)) ∧
      ofSourceBacktraced (.ofText "" "+?") =
        .error (.fatal { error := .located illegalMark, rules := tried.reverse }) ∧
      replay [] events = some tried := by
  intro line value tried events
  have herror : (ofSourceTraced (.ofText "" "+?")).1 = .error (.fatal (.located illegalMark)) := rfl
  have htold : replay [] events = some tried := rfl
  obtain ⟨-, -, -, -, -, hnarrates, -⟩ := ofSourceTraced_narrates (.ofText "" "+?")
  obtain ⟨rules, hrules, hreplay, -⟩ := hnarrates _ herror
  have hopen : rules.reverse = tried := Option.some.inj (hreplay.symm.trans htold)
  obtain rfl : rules = tried.reverse := by rw [← hopen, List.reverse_reverse]
  exact ⟨rfl, herror, hrules, htold⟩

end Script

end OpticScript
