import OpticScript.Proofs.Packrat.Steps

/-!
# Backtraces

An error ends every rule that is being tried when it arises. `callBacktraced` runs a rule as the
engine does, and an error comes with the rules it has ended, the outermost first (`Backtrace`) :
it has none where it arises, and each rule that it leaves is put before the others.

But for that the run is the one of the engine (`withError_callBacktraced`). The engine only passes
errors on. So a run is the same up to a renaming of errors if the feed and the called rules are
(`Branch.run_withError`), and a backtrace can be forgotten anywhere.
-/

set_option linter.unusedSectionVars false

namespace OpticScript.Packrat

variable {K : Type} [DecidableEq K] {V W : K → Type} {T F E E' S α β : Type}

/-! ## Errors are passed on -/

def Halt.map (f : E → E') : Halt E → Halt E'
  | .fatal e => .fatal (f e)
  | .outOfFuel => .outOfFuel

/-- The feed with its errors renamed. -/
def Feed.mapError (f : E → E') (feed : Feed K T F E S) : Feed K T F E' S where
  item pos s := ((feed.item pos s).1.mapError f, (feed.item pos s).2)
  report complaint s := f (feed.report complaint s)
  observe := feed.observe

/-- What a step gives, with its error renamed. -/
def withError (f : E → E') (r : Except (Halt E) α × State K W S) :
    Except (Halt E') α × State K W S :=
  (r.1.mapError (Halt.map f), r.2)

open Step

section

variable {f : E → E'} {feed : Feed K T F E S}

theorem withError_andThen {next : α → State K W S → Except (Halt E) β × State K W S}
    (r : Except (Halt E) α × State K W S) :
    withError f (andThen r next) = andThen (withError f r) fun a s => withError f (next a s) := by
  rcases r with ⟨halt | a, s⟩ <;> rfl

/-- A step whose parts are renamed one by one is renamed. -/
theorem withError_andThen_eq {r : Except (Halt E) α × State K W S}
    {r' : Except (Halt E') α × State K W S}
    {next : α → State K W S → Except (Halt E) β × State K W S}
    {next' : α → State K W S → Except (Halt E') β × State K W S} (h : withError f r = r')
    (hnext : ∀ a s, withError f (next a s) = next' a s) :
    withError f (andThen r next) = andThen r' next' := by
  rw [withError_andThen, h]
  exact congrArg _ (funext fun a => funext (hnext a))

theorem withError_thenMatch_eq {r : Except (Halt E) (Option α) × State K W S}
    {r' : Except (Halt E') (Option α) × State K W S}
    {next : α → State K W S → Except (Halt E) (Option β) × State K W S}
    {next' : α → State K W S → Except (Halt E') (Option β) × State K W S}
    (h : withError f r = r') (hnext : ∀ a s, withError f (next a s) = next' a s) :
    withError f (thenMatch r next) = thenMatch r' next' := by
  refine withError_andThen_eq h fun result s => ?_
  cases result with
  | none => rfl
  | some a => exact hnext a s

theorem withError_look (s : State K W S) :
    withError f (look feed s) = look (feed.mapError f) s := by
  obtain ⟨item, report, observe⟩ := feed
  simp only [look, State.item, Feed.mapError]
  rcases item s.cursor s.feed with ⟨e | item, after⟩ <;> rfl

theorem withError_take (accept : T → Bool) (s : State K W S) :
    withError f (Step.take feed accept s) = Step.take (feed.mapError f) accept s := by
  refine withError_thenMatch_eq (withError_look s) fun item s' => ?_
  split <;> rfl

theorem withError_passes (test : Option (T → Bool)) (s : State K W S) :
    withError f (passes feed test s) = passes (feed.mapError f) test s := by
  cases test with
  | none => rfl
  | some test =>
    rw [passes_some, passes_some]
    exact withError_andThen_eq (withError_look s) fun _ _ => rfl

theorem repeatedly_withError {callee : Recognizer K W E S α} {callee' : Recognizer K W E' S α}
    (hcallee : ∀ s, withError f (callee s) = callee' s) :
    ∀ rounds s, withError f (repeatedly callee rounds s) = repeatedly callee' rounds s
  | 0, _ => rfl
  | rounds + 1, s => by
    rw [repeatedly_succ, repeatedly_succ]
    refine withError_andThen_eq (hcallee s) fun result s' => ?_
    cases result with
    | none => rfl
    | some a =>
      dsimp only
      split
      · rfl
      · exact withError_andThen_eq (repeatedly_withError hcallee rounds s') fun _ _ => rfl

theorem Branch.run_withError {callee : (key : K) → Recognizer K W E S (V key)}
    {callee' : (key : K) → Recognizer K W E' S (V key)}
    (hcallee : ∀ key s, withError f (callee key s) = callee' key s) (rounds : Nat)
    (branch : Branch K V T F α) (s : State K W S) :
    withError f (branch.run feed callee rounds s) =
      branch.run (feed.mapError f) callee' rounds s := by
  induction branch generalizing s with
  | done result => rfl
  | fail => rfl
  | raise complaint => rfl
  | take accept next ih =>
    rw [run_take, run_take]
    exact withError_thenMatch_eq (withError_take accept s) ih
  | look next ih =>
    rw [run_look, run_look]
    exact withError_thenMatch_eq (withError_look s) ih
  | call key next ih =>
    rw [run_call, run_call]
    exact withError_thenMatch_eq (hcallee key s) ih
  | maybe key ahead next ih =>
    rw [run_maybe, run_maybe]
    refine withError_andThen_eq (hcallee key s) fun result s' => ?_
    cases result with
    | none => exact ih none _
    | some a =>
      refine withError_andThen_eq (withError_passes ahead s') fun passed s'' => ?_
      cases passed with
      | true => exact ih (some a) s''
      | false => exact ih none _
  | star key next ih =>
    rw [run_star, run_star]
    exact withError_andThen_eq (repeatedly_withError (hcallee key) rounds s) ih

theorem firstMatch_withError {run : Branch K V T F α → Recognizer K W E S α}
    {run' : Branch K V T F α → Recognizer K W E' S α}
    (hrun : ∀ branch s, withError f (run branch s) = run' branch s) (start : Nat) (leaky : Bool)
    (branches : List (Branch K V T F α)) (s : State K W S) :
    withError f (firstMatch run start leaky branches s) =
      firstMatch run' start leaky branches s := by
  induction branches generalizing s with
  | nil => rfl
  | cons branch branches ih =>
    rw [firstMatch_cons, firstMatch_cons]
    refine withError_andThen_eq (hrun branch _) fun result s' => ?_
    cases result with
    | none => exact ih s'
    | some a => rfl

theorem Production.apply_withError {wrapping : Wrapping K V W}
    {callee : (key : K) → Recognizer K W E S (W key)}
    {callee' : (key : K) → Recognizer K W E' S (W key)}
    (hcallee : ∀ key s, withError f (callee key s) = callee' key s) (rounds : Nat) (key : K)
    (production : Production K V T F (V key)) (s : State K W S) :
    withError f (production.apply feed wrapping callee rounds key s) =
      production.apply (feed.mapError f) wrapping callee' rounds key s := by
  rw [apply_eq, apply_eq]
  refine withError_andThen_eq (firstMatch_withError (fun branch s => ?_) _ _ _ _) fun _ _ => rfl
  refine branch.run_withError (fun key s => ?_) rounds s
  rw [expect_eq, expect_eq]
  exact withError_andThen_eq (hcallee key s) fun _ _ => rfl

theorem grow_withError {key : K} {body : Recognizer K W E S (W key)}
    {body' : Recognizer K W E' S (W key)} (hbody : ∀ s, withError f (body s) = body' s)
    (start : Nat) :
    ∀ rounds best s, withError f (grow key body start rounds best s) =
      grow key body' start rounds best s
  | 0, _, _ => rfl
  | rounds + 1, best, s => by
    rw [grow_succ, grow_succ]
    refine withError_andThen_eq (hbody _) fun result s' => ?_
    split
    · exact grow_withError hbody start rounds _ _
    · rfl

theorem runRule_withError {grammar : Grammar K V T F} {key : K}
    {body : Recognizer K W E S (W key)} {body' : Recognizer K W E' S (W key)}
    (hbody : ∀ s, withError f (body s) = body' s) (rounds : Nat) (s : State K W S) :
    withError f (runRule grammar key rounds body s) = runRule grammar key rounds body' s := by
  cases runRule_cases grammar key s with
  | plain h =>
    rw [runRule_of_plain body rounds h, runRule_of_plain body' rounds h]
    exact hbody s
  | memo h hget =>
    rw [runRule_of_memo body rounds h hget, runRule_of_memo body' rounds h hget]
    rfl
  | cached h hget =>
    rw [runRule_of_cached body rounds h hget, runRule_of_cached body' rounds h hget]
    exact withError_andThen_eq (hbody s) fun _ _ => rfl
  | grown h hget =>
    rw [runRule_of_grown body rounds h hget, runRule_of_grown body' rounds h hget]
    exact grow_withError hbody _ rounds _ _

end

/-! ## The rules that an error ends -/

/-- An error, and the rules that were being tried when it arose, the outermost first. -/
structure Backtrace (K E : Type) where
  error : E
  rules : List K

/-- The error as it leaves a rule. -/
def Backtrace.leave (key : K) (backtrace : Backtrace K E) : Backtrace K E :=
  { backtrace with rules := key :: backtrace.rules }

/-- The feed with errors that have not left a rule. -/
def Feed.backtraced (feed : Feed K T F E S) : Feed K T F (Backtrace K E) S :=
  feed.mapError fun error => { error, rules := [] }

/-- Runs a rule as `call` does; an error comes with the rules that it has left. -/
def callBacktraced (grammar : Grammar K V T F) (wrapping : Wrapping K V W)
    (feed : Feed K T F E S) : Nat → (key : K) → Recognizer K W (Backtrace K E) S (W key)
  | 0, _, s => (.error .outOfFuel, s)
  | fuel + 1, key, s =>
    let body :=
      (grammar.production key).apply feed.backtraced wrapping
        (callBacktraced grammar wrapping feed fuel) fuel key
    match runRule grammar key fuel body (s.observe feed (.attempt key)) with
    | (answer, s) =>
      (answer.mapError (Halt.map (Backtrace.leave key)),
        s.observe feed (outcomeEvent key s.cursor answer))

theorem Feed.mapError_backtraced (feed : Feed K T F E S) :
    feed.backtraced.mapError Backtrace.error = feed := by
  obtain ⟨item, report, observe⟩ := feed
  simp only [Feed.backtraced, Feed.mapError]
  congr
  funext pos s
  rcases item pos s with ⟨e | item, after⟩ <;> rfl

/-- Without its backtrace the run is that of the engine. -/
theorem withError_callBacktraced (grammar : Grammar K V T F) (wrapping : Wrapping K V W)
    (feed : Feed K T F E S) (fuel : Nat) (key : K) (s : State K W S) :
    withError Backtrace.error (callBacktraced grammar wrapping feed fuel key s) =
      call grammar wrapping feed fuel key s := by
  induction fuel generalizing key s with
  | zero => rfl
  | succ fuel ih =>
    have hrule : withError Backtrace.error (runRule grammar key fuel
          ((grammar.production key).apply feed.backtraced wrapping
            (callBacktraced grammar wrapping feed fuel) fuel key) (s.observe feed (.attempt key))) =
        runRule grammar key fuel
          ((grammar.production key).apply feed wrapping (call grammar wrapping feed fuel) fuel key)
          (s.observe feed (.attempt key)) := by
      refine runRule_withError (fun s => ?_) fuel _
      rw [Production.apply_withError ih, Feed.mapError_backtraced]
    rw [callBacktraced, call]
    dsimp only
    rw [← hrule]
    rcases runRule grammar key fuel _ (s.observe feed (.attempt key)) with
      ⟨(backtrace | _) | _ | result, after⟩ <;> rfl

end OpticScript.Packrat
