import OpticScript.Proofs.Packrat.Backtrace
import OpticScript.Proofs.Parser.Outcome

/-!
# What a trace tells

The events of a trace drive a stack of rules : an attempt adds a rule to it, and a success or a
failure is that of the whole stack and takes the last rule off (`replay`). A step of a parse
`Narrates` if its events fit this. When it has an answer the stack is what it was before, and when
it ends in an error the stack has grown by the rules that the error has ended.

The trace keeps the rules of its own accord, on the way down, and pops them for an error without an
event. The rules that an error has ended come from the run itself, on the way up
(`callBacktraced`), so that the two agree is not a matter of definition.

A rule is told from its attempt to the event that its answer makes of it (`closing`) : a match is
told as a success up to the cursor, a mismatch as a failure, and an error not at all. In between
come the events of the rules that it calls (`Recounts`). This holds of every call in every parse
(`callWith_recounts`).
-/

namespace OpticScript

open Packrat

/-! ## The stack machine -/

/-- The stack after an event, if the event fits the stack before it. -/
def TraceEvent.after? (event : TraceEvent) (stack : RulePath) : Option RulePath :=
  match event with
  | attempt [] => none
  | attempt (label :: below) => if below = stack then some (label :: stack) else none
  | success path _ => if path = stack ∧ path ≠ [] then some stack.tail else none
  | failure path => if path = stack ∧ path ≠ [] then some stack.tail else none

/-- The stack after some events, if each of them fits. -/
def replay (stack : RulePath) : List TraceEvent → Option RulePath
  | [] => some stack
  | event :: events => (event.after? stack).bind fun stack => replay stack events

theorem replay_append (stack : RulePath) (events events' : List TraceEvent) :
    replay stack (events ++ events') =
      (replay stack events).bind fun stack => replay stack events' := by
  induction events generalizing stack with
  | nil => rfl
  | cons event events ih =>
    rw [List.cons_append, replay, replay, Option.bind_assoc]
    exact congrArg _ (funext ih)

theorem replay_attempt (stack : RulePath) (label : String) (events : List TraceEvent) :
    replay stack (.attempt (label :: stack) :: events) = replay (label :: stack) events := by
  simp [replay, TraceEvent.after?]

theorem replay_success (stack : RulePath) (label : String) (stop : Nat) :
    replay (label :: stack) [.success (label :: stack) stop] = some stack := by
  simp [replay, TraceEvent.after?]

theorem replay_failure (stack : RulePath) (label : String) :
    replay (label :: stack) [.failure (label :: stack)] = some stack := by
  simp [replay, TraceEvent.after?]

/-- The rules that an error has ended, the innermost first. -/
def Packrat.Backtrace.path {E : Type} (backtrace : Backtrace Rule E) : RulePath :=
  (backtrace.rules.map Rule.label).reverse

namespace Parser

/-- A part of a parse whose errors come with the rules that they have ended. -/
abbrev TracedReply (α : Type) := Except (Halt (Backtrace Rule ScriptError)) α × Parser

/-- Where the events lead to from a stack : back to it if there is an answer, and otherwise to
the rules that the error has ended. -/
def LeadsTo {α : Type} (stack : RulePath) (events : List TraceEvent) :
    Except (Halt (Backtrace Rule ScriptError)) α → Prop
  | .ok _ => replay stack events = some stack
  | .error (.fatal backtrace) => replay stack events = some (backtrace.path ++ stack)
  | .error .outOfFuel => True

/-- The events of the reply fit the stack, and the trace keeps the stack. -/
def Narrates {α : Type} (stack : RulePath) (parser : Parser) (reply : TracedReply α) : Prop :=
  ∀ earlier : List TraceEvent,
    parser.feed.trace = some { path := stack, events := earlier.toArray } →
      ∃ events, reply.2.feed.trace =
          some { path := stack, events := (earlier ++ events).toArray } ∧
        LeadsTo stack events reply.1

section

variable {α β : Type} {stack : RulePath} {parser after : Parser}

/-- An answer without an event. -/
theorem narrates_ok (h : after.feed.trace = parser.feed.trace) (a : α) :
    Narrates stack parser (.ok a, after) := fun earlier htrace =>
  ⟨[], by simp [h, htrace], rfl⟩

/-- An error that has not left a rule. -/
theorem narrates_error (h : after.feed.trace = parser.feed.trace) (error : ScriptError) :
    Narrates stack parser ((.error (.fatal { error, rules := [] }), after) : TracedReply α) :=
  fun earlier htrace => ⟨[], by simp [h, htrace], rfl⟩

theorem narrates_outOfFuel (h : after.feed.trace = parser.feed.trace) :
    Narrates stack parser ((.error .outOfFuel, after) : TracedReply α) :=
  fun earlier htrace => ⟨[], by simp [h, htrace], trivial⟩

/-- What comes before the first event does not matter. -/
theorem Narrates.of_trace_eq {reply : TracedReply α} (h : Narrates stack after reply)
    (heq : after.feed.trace = parser.feed.trace) : Narrates stack parser reply :=
  fun earlier htrace => h earlier (heq.trans htrace)

theorem Narrates.andThen {reply : TracedReply α} {next : α → Parser → TracedReply β}
    (h : Narrates stack parser reply) (hnext : ∀ a after, Narrates stack after (next a after)) :
    Narrates stack parser (Step.andThen reply next) := by
  intro earlier htrace
  obtain ⟨events, hevents, hleads⟩ := h earlier htrace
  rcases reply with ⟨(backtrace | _) | a, after⟩
  · exact ⟨events, hevents, hleads⟩
  · exact ⟨events, hevents, trivial⟩
  · obtain ⟨events', hevents', hleads'⟩ := hnext a after (earlier ++ events) hevents
    have hback : replay stack events = some stack := hleads
    refine ⟨events ++ events', by rw [← List.append_assoc]; exact hevents', ?_⟩
    change LeadsTo stack (events ++ events') (next a after).1
    have happend : replay stack (events ++ events') = replay stack events' := by
      rw [replay_append, hback]
      rfl
    unfold LeadsTo at hleads' ⊢
    rwa [happend]

theorem Narrates.thenMatch {reply : TracedReply (Option α)}
    {next : α → Parser → TracedReply (Option β)} (h : Narrates stack parser reply)
    (hnext : ∀ a after, Narrates stack after (next a after)) :
    Narrates stack parser (Step.thenMatch reply next) := by
  refine h.andThen fun result after => ?_
  cases result with
  | none => exact narrates_ok rfl none
  | some a => exact hnext a after

/-! ## Steps without events -/

theorem token_trace (pos : Nat) (feed : TokenFeed) : (feed.token pos).2.trace = feed.trace := by
  obtain ⟨lexer, tokens, trace⟩ := feed
  simp only [TokenFeed.token]
  cases tokens[pos]? with
  | some t => rfl
  | none => rcases lexer.nextToken with ⟨e | t, next⟩ <;> rfl

theorem look_narrates (parser : Parser) :
    Narrates stack parser (Step.look TokenFeed.feed.backtraced parser) := by
  have htrace := token_trace parser.cursor parser.feed
  simp only [Step.look, State.item, Feed.backtraced, Feed.mapError, TokenFeed.feed_item]
  rcases hitem : parser.feed.token parser.cursor with ⟨e | t, feed⟩ <;> rw [hitem] at htrace
  · exact narrates_error htrace e
  · exact narrates_ok htrace _

theorem take_narrates (accept : Token → Bool) (parser : Parser) :
    Narrates stack parser (Step.take TokenFeed.feed.backtraced accept parser) := by
  refine (look_narrates parser).thenMatch fun t after => ?_
  split
  · exact narrates_ok rfl _
  · exact narrates_ok rfl _

theorem passes_narrates (test : Option (Token → Bool)) (parser : Parser) :
    Narrates stack parser (passes TokenFeed.feed.backtraced test parser) := by
  cases test with
  | none => exact narrates_ok rfl _
  | some test =>
    rw [passes_some]
    exact (look_narrates parser).andThen fun _ _ => narrates_ok rfl _

/-! ## Rules -/

theorem repeatedly_narrates {callee : Parser → TracedReply (Option α)}
    (hcallee : ∀ parser, Narrates stack parser (callee parser)) :
    ∀ rounds parser, Narrates stack parser (repeatedly callee rounds parser)
  | 0, _ => narrates_outOfFuel rfl
  | rounds + 1, parser => by
    rw [repeatedly_succ]
    refine (hcallee parser).andThen fun result after => ?_
    cases result with
    | none => exact narrates_ok rfl _
    | some a =>
      dsimp only
      split
      · exact narrates_ok rfl _
      · exact (repeatedly_narrates hcallee rounds after).andThen fun _ _ => narrates_ok rfl _

theorem branch_narrates {callee : (rule : Rule) → Parser → TracedReply (Option rule.Result)}
    (hcallee : ∀ rule parser, Narrates stack parser (callee rule parser)) (rounds : Nat)
    (branch : Branch Rule Rule.Result Token Blame α) (parser : Parser) :
    Narrates stack parser (branch.run TokenFeed.feed.backtraced callee rounds parser) := by
  induction branch generalizing parser with
  | done result => exact narrates_ok rfl _
  | fail => exact narrates_ok rfl _
  | raise complaint => exact narrates_error rfl _
  | take accept next ih =>
    rw [Branch.run_take]
    exact (take_narrates accept parser).thenMatch ih
  | look next ih =>
    rw [Branch.run_look]
    exact (look_narrates parser).thenMatch ih
  | call rule next ih =>
    rw [Branch.run_call]
    exact (hcallee rule parser).thenMatch ih
  | maybe rule ahead next ih =>
    rw [Branch.run_maybe]
    refine (hcallee rule parser).andThen fun result after => ?_
    cases result with
    | none => exact (ih none _).of_trace_eq rfl
    | some a =>
      refine (passes_narrates ahead after).andThen fun passed after' => ?_
      cases passed with
      | true => exact ih (some a) after'
      | false => exact (ih none _).of_trace_eq rfl
  | star rule next ih =>
    rw [Branch.run_star]
    exact (repeatedly_narrates (hcallee rule) rounds parser).andThen ih

theorem firstMatch_narrates
    {run : Branch Rule Rule.Result Token Blame α → Parser → TracedReply (Option α)}
    (hrun : ∀ branch parser, Narrates stack parser (run branch parser)) (start : Nat)
    (leaky : Bool) (branches : List (Branch Rule Rule.Result Token Blame α)) (parser : Parser) :
    Narrates stack parser (firstMatch run start leaky branches parser) := by
  induction branches generalizing parser with
  | nil => exact narrates_ok (by cases leaky <;> rfl) none
  | cons branch branches ih =>
    rw [firstMatch_cons]
    refine ((hrun branch (parser.moveTo start)).of_trace_eq rfl).andThen fun result after => ?_
    cases result with
    | none => exact ih after
    | some a => exact narrates_ok rfl _

/-- What a node is made of does not matter. -/
theorem apply_narrates {callee : Rule → Parser → TracedReply (Option Node)}
    (hcallee : ∀ rule parser, Narrates stack parser (callee rule parser)) (rounds : Nat)
    (rule : Rule) (production : Production Rule Rule.Result Token Blame rule.Result)
    (parser : Parser) :
    Narrates stack parser
      (production.apply TokenFeed.feed.backtraced Rule.nodes callee rounds rule parser) := by
  have hexpect : ∀ rule parser, Narrates stack parser
      (expect Rule.nodes rule (callee rule) parser) := fun rule parser => by
    rw [expect_eq]
    exact (hcallee rule parser).andThen fun _ _ => narrates_ok rfl _
  rw [Production.apply_eq]
  refine Narrates.andThen ?_ fun _ _ => narrates_ok rfl _
  exact (firstMatch_narrates (branch_narrates hexpect rounds) _ _ _ _).of_trace_eq rfl

theorem grow_narrates {rule : Rule} {body : Parser → TracedReply (Option Node)}
    (hbody : ∀ parser, Narrates stack parser (body parser)) (start : Nat) :
    ∀ rounds best parser, Narrates stack parser (grow rule body start rounds best parser)
  | 0, _, _ => narrates_outOfFuel rfl
  | rounds + 1, best, parser => by
    rw [grow_succ]
    refine ((hbody (parser.moveTo start)).of_trace_eq rfl).andThen fun result after => ?_
    split
    · exact (grow_narrates hbody start rounds _ _).of_trace_eq rfl
    · exact narrates_ok rfl _

theorem runRule_narrates {grammar : Grammar Rule Rule.Result Token Blame} {rule : Rule}
    {body : Parser → TracedReply (Option Node)}
    (hbody : ∀ parser, Narrates stack parser (body parser)) (rounds : Nat) (parser : Parser) :
    Narrates stack parser (runRule grammar rule rounds body parser) := by
  cases runRule_cases grammar rule parser with
  | plain h =>
    rw [runRule_of_plain body rounds h]
    exact hbody parser
  | memo h hget =>
    rw [runRule_of_memo body rounds h hget]
    exact narrates_ok rfl _
  | cached h hget =>
    rw [runRule_of_cached body rounds h hget]
    exact (hbody parser).andThen fun _ _ => narrates_ok rfl _
  | grown h hget =>
    rw [runRule_of_grown body rounds h hget]
    exact (grow_narrates hbody _ _ _ _).of_trace_eq rfl

/-- How a rule with this answer is told to be over. An error ends it without an event. -/
def closing {E : Type} (path : RulePath) (stop : Nat) :
    Except (Halt E) (Option α) → List TraceEvent
  | .ok (some _) => [.success path stop]
  | .ok none => [.failure path]
  | .error _ => []

/-- The rule is told from its attempt on to the event that its answer makes of it, and what comes
in between fits the stack with the rule on it. It leaves the rule there, or an error leaves the
rules that it has ended. -/
def Recounts (label : String) (stack : RulePath) (parser : Parser)
    (reply : TracedReply (Option α)) : Prop :=
  ∀ earlier : List TraceEvent,
    parser.feed.trace = some { path := stack, events := earlier.toArray } →
      ∃ inner, reply.2.feed.trace = some { path := stack, events := (earlier ++
          (.attempt (label :: stack) :: inner ++
            closing (label :: stack) reply.2.cursor reply.1)).toArray } ∧
        match reply.1 with
        | .ok _ => replay (label :: stack) inner = some (label :: stack)
        | .error (.fatal backtrace) =>
          replay (label :: stack) inner = some (backtrace.path ++ stack)
        | .error .outOfFuel => True

/-- A rule that is told so is off the stack again. -/
theorem Recounts.narrates {label : String} {reply : TracedReply (Option α)}
    (h : Recounts label stack parser reply) : Narrates stack parser reply := by
  intro earlier htrace
  obtain ⟨inner, hevents, hinner⟩ := h earlier htrace
  refine ⟨_, hevents, ?_⟩
  rcases reply with ⟨(backtrace | _) | _ | a, after⟩ <;> dsimp only [LeadsTo, closing] at hinner ⊢
  · rw [List.append_nil, replay_attempt, hinner]
  · rw [List.cons_append, replay_attempt, replay_append, hinner]
    exact replay_failure stack label
  · rw [List.cons_append, replay_attempt, replay_append, hinner]
    exact replay_success stack label _

/-- A rule is tried on top of the stack. Its outcome takes it off again, and an error leaves it
behind the rules that the error has ended inside it. -/
theorem Narrates.recounts {rule : Rule}
    {answer : Except (Halt (Backtrace Rule ScriptError)) (Option α)}
    (h : Narrates (rule.label :: stack) (parser.observe TokenFeed.feed (.attempt rule))
      (answer, after)) :
    Recounts rule.label stack parser (answer.mapError (Halt.map (Backtrace.leave rule)),
      after.observe TokenFeed.feed (outcomeEvent rule after.cursor answer)) := by
  intro earlier htrace
  obtain ⟨events, hevents, hleads⟩ := h (earlier ++ [.attempt (rule.label :: stack)]) (by
    simp [State.observe, TokenFeed.feed, TokenFeed.observe, TokenFeed.mapTrace, htrace,
      Trace.attempt])
  simp only at hevents
  refine ⟨events, ?_, ?_⟩
  · rcases answer with (backtrace | _) | _ | a <;>
      simp [State.observe, outcomeEvent, TokenFeed.feed, TokenFeed.observe, TokenFeed.mapTrace,
        hevents, Trace.abandon, Trace.failure, Trace.success, closing, Except.mapError]
  · rcases answer with (backtrace | _) | _ | a
    · have hstack : replay (rule.label :: stack) events =
          some (backtrace.path ++ rule.label :: stack) := hleads
      change replay _ events = some ((backtrace.leave rule).path ++ stack)
      rw [hstack]
      simp [Backtrace.path, Backtrace.leave]
    · trivial
    · exact hleads
    · exact hleads

/-- A rule tells what becomes of it and of every rule it calls. -/
theorem callBacktraced_recounts (grammar : Grammar Rule Rule.Result Token Blame) (fuel : Nat)
    (rule : Rule) (stack : RulePath) (parser : Parser) :
    Recounts rule.label stack parser
      (callBacktraced grammar Rule.nodes TokenFeed.feed (fuel + 1) rule parser) := by
  induction fuel generalizing rule stack parser with
  | zero =>
    have hbody : ∀ parser, Narrates (rule.label :: stack) parser
        ((grammar.production rule).apply TokenFeed.feed.backtraced Rule.nodes
          (callBacktraced grammar Rule.nodes TokenFeed.feed 0) 0 rule parser) :=
      apply_narrates (fun _ _ => narrates_outOfFuel rfl) 0 rule _
    exact (runRule_narrates hbody 0 _).recounts
  | succ fuel ih =>
    have hbody : ∀ parser, Narrates (rule.label :: stack) parser
        ((grammar.production rule).apply TokenFeed.feed.backtraced Rule.nodes
          (callBacktraced grammar Rule.nodes TokenFeed.feed (fuel + 1)) (fuel + 1) rule parser) :=
      apply_narrates (fun rule parser => (ih rule _ parser).narrates) (fuel + 1) rule _
    exact (runRule_narrates hbody (fuel + 1) _).recounts

theorem callBacktraced_narrates (grammar : Grammar Rule Rule.Result Token Blame) (fuel : Nat)
    (rule : Rule) (stack : RulePath) (parser : Parser) :
    Narrates stack parser
      (callBacktraced grammar Rule.nodes TokenFeed.feed fuel rule parser) := by
  cases fuel with
  | zero => exact narrates_outOfFuel rfl
  | succ fuel => exact (callBacktraced_recounts grammar fuel rule stack parser).narrates

end

/-- A rule that is called with a trace is told there : its attempt, the rules that it calls, and
what its answer makes of it. What the called rules are told as fits the stack with the rule on it.
It leaves the rule there, or an error leaves the rules that it has ended. -/
theorem callWith_recounts (caching : Bool) (fuel : Nat) (rule : Rule) {parser : Parser}
    {stack : RulePath} {earlier : List TraceEvent}
    (htrace : parser.feed.trace = some { path := stack, events := earlier.toArray }) :
    let reply := callWith caching (fuel + 1) rule parser
    ∃ inner, reply.2.feed.trace = some { path := stack, events := (earlier ++
        (.attempt (rule.label :: stack) :: inner ++
          closing (rule.label :: stack) reply.2.cursor reply.1)).toArray } ∧
      (∀ result, reply.1 = .ok result →
        replay (rule.label :: stack) inner = some (rule.label :: stack)) ∧
      ∀ e, reply.1 = .error (.fatal e) → ∃ rules,
        (callBacktraced (scriptGrammar caching) Rule.nodes TokenFeed.feed (fuel + 1) rule
          parser).1 = .error (.fatal { error := e, rules }) ∧
        replay (rule.label :: stack) inner = some ((rules.map Rule.label).reverse ++ stack) := by
  rw [callWith, ← withError_callBacktraced]
  obtain ⟨inner, hevents, hinner⟩ :=
    callBacktraced_recounts (scriptGrammar caching) fuel rule stack parser earlier htrace
  generalize callBacktraced (scriptGrammar caching) Rule.nodes TokenFeed.feed (fuel + 1) rule
    parser = traced at *
  rcases traced with ⟨(backtrace | _) | result, after⟩
  · refine ⟨inner, hevents, fun _ h => by simp [withError, Except.mapError] at h, fun e h => ?_⟩
    obtain rfl : backtrace.error = e := by
      simpa [withError, Except.mapError, Halt.map] using h
    exact ⟨backtrace.rules, rfl, hinner⟩
  · exact ⟨inner, hevents, by simp [withError, Except.mapError],
      by simp [withError, Except.mapError, Halt.map]⟩
  · refine ⟨inner, ?_, fun _ _ => hinner, by simp [withError, Except.mapError]⟩
    cases result <;> exact hevents

end Parser

end OpticScript
