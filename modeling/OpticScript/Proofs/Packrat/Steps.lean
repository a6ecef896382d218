import OpticScript.Packrat.Engine

/-!
# The engine step by step

The engine takes apart what a call returns by cases. Here the same is said with one step
after the other (`Step.andThen`, `Step.thenMatch`), an equation for each construct of a
branch, for the loops and for each way a rule is run (`RunCase`), so that a property of a part of
a parse can be carried over to the whole one construct at a time.
-/

set_option linter.unusedSectionVars false

namespace OpticScript.Packrat

variable {K : Type} [DecidableEq K] {V W : K → Type} {T F E S α β : Type}

namespace Step

/-- One step after the other, unless the first one ends the parse. -/
def andThen (r : Except (Halt E) α × State K W S)
    (next : α → State K W S → Except (Halt E) β × State K W S) :
    Except (Halt E) β × State K W S :=
  match r with
  | (.error halt, s) => (.error halt, s)
  | (.ok a, s) => next a s

/-- One step after the other, unless the first one does not match. -/
def thenMatch (r : Except (Halt E) (Option α) × State K W S)
    (next : α → State K W S → Except (Halt E) (Option β) × State K W S) :
    Except (Halt E) (Option β) × State K W S :=
  andThen r fun result s =>
    match result with
    | none => (.ok none, s)
    | some a => next a s

/-- The item at the cursor. -/
def look (feed : Feed K T F E S) (s : State K W S) : Except (Halt E) (Option T) × State K W S :=
  match s.item feed with
  | (.error e, s) => (.error (.fatal e), s)
  | (.ok item, s) => (.ok item, s)

/-- The item at the cursor, which is taken if it passes a test. -/
def take (feed : Feed K T F E S) (accept : T → Bool) (s : State K W S) :
    Except (Halt E) (Option T) × State K W S :=
  thenMatch (look feed s) fun item s =>
    if accept item then (.ok (some item), s.moveTo (s.cursor + 1)) else (.ok none, s)

end Step

open Step

theorem repeatedly_succ (callee : Recognizer K W E S α) (rounds : Nat) (s : State K W S) :
    repeatedly callee (rounds + 1) s = andThen (callee s) fun result s' =>
      match result with
      | none => (.ok [], s')
      | some a =>
        if s'.cursor = s.cursor then (.ok [a], s')
        else andThen (repeatedly callee rounds s') fun results s' => (.ok (a :: results), s') := by
  rw [repeatedly]
  rcases callee s with ⟨halt | _ | a, s'⟩
  · rfl
  · rfl
  · dsimp only [andThen]
    split
    · rfl
    · rcases repeatedly callee rounds s' with ⟨halt | results, s''⟩ <;> rfl

theorem passes_some (feed : Feed K T F E S) (test : T → Bool) (s : State K W S) :
    passes feed (some test) s = andThen (look feed s) fun item s => (.ok (item.any test), s) := by
  rw [passes, look]
  rcases s.item feed with ⟨e | item, s'⟩ <;> rfl

section

variable (feed : Feed K T F E S) (callee : (key : K) → Recognizer K W E S (V key)) (rounds : Nat)

theorem Branch.run_take (accept : T → Bool) (next : T → Branch K V T F α) (s : State K W S) :
    (take accept next).run feed callee rounds s =
      thenMatch (Step.take feed accept s) fun item s => (next item).run feed callee rounds s := by
  rw [Branch.run, Step.take, Step.look]
  rcases s.item feed with ⟨e | _ | item, s'⟩
  · rfl
  · rfl
  · by_cases h : accept item = true <;> simp [h, thenMatch, andThen]

theorem Branch.run_look (next : T → Branch K V T F α) (s : State K W S) :
    (look next).run feed callee rounds s =
      thenMatch (Step.look feed s) fun item s => (next item).run feed callee rounds s := by
  rw [Branch.run, Step.look]
  rcases s.item feed with ⟨e | _ | item, s'⟩ <;> rfl

theorem Branch.run_call (key : K) (next : V key → Branch K V T F α) (s : State K W S) :
    (call key next).run feed callee rounds s =
      thenMatch (callee key s) fun result s => (next result).run feed callee rounds s := by
  rw [Branch.run]
  rcases callee key s with ⟨halt | _ | result, s'⟩ <;> rfl

theorem Branch.run_maybe (key : K) (ahead : Option (T → Bool))
    (next : Option (V key) → Branch K V T F α) (s : State K W S) :
    (maybe key ahead next).run feed callee rounds s =
      andThen (callee key s) fun result s' =>
        match result with
        | none => (next none).run feed callee rounds (s'.moveTo s.cursor)
        | some a => andThen (passes feed ahead s') fun passed s' =>
          if passed then (next (some a)).run feed callee rounds s'
          else (next none).run feed callee rounds (s'.moveTo s.cursor) := by
  rw [Branch.run]
  rcases callee key s with ⟨halt | _ | result, s'⟩
  · rfl
  · rfl
  · dsimp only [andThen]
    rcases passes feed ahead s' with ⟨halt | _ | _, s''⟩ <;> rfl

theorem Branch.run_star (key : K) (next : List (V key) → Branch K V T F α) (s : State K W S) :
    (star key next).run feed callee rounds s =
      andThen (repeatedly (callee key) rounds s) fun results s =>
        (next results).run feed callee rounds s := by
  rw [Branch.run]
  rcases repeatedly (callee key) rounds s with ⟨halt | results, s'⟩ <;> rfl

end

theorem firstMatch_cons (run : Branch K V T F α → Recognizer K W E S α) (start : Nat)
    (leaky : Bool) (branch : Branch K V T F α) (branches : List (Branch K V T F α))
    (s : State K W S) :
    firstMatch run start leaky (branch :: branches) s =
      andThen (run branch (s.moveTo start)) fun result s =>
        match result with
        | some a => (.ok (some a), s)
        | none => firstMatch run start leaky branches s := by
  rw [firstMatch]
  rcases run branch (s.moveTo start) with ⟨halt | _ | result, s'⟩ <;> rfl

theorem grow_succ (key : K) (body : Recognizer K W E S (W key)) (start rounds : Nat)
    (best : Memo (W key)) (s : State K W S) :
    grow key body start (rounds + 1) best s =
      andThen (body (s.moveTo start)) fun result s' =>
        if result.isSome ∧ best.stop < s'.cursor then
          grow key body start rounds { result, stop := s'.cursor }
            (s'.record key start { result, stop := s'.cursor })
        else (.ok best.result, s'.moveTo best.stop) := by
  rw [grow]
  rcases body (s.moveTo start) with ⟨halt | result, s'⟩ <;> rfl

theorem memoize_of_some {key : K} (body : Recognizer K W E S (W key)) {s : State K W S}
    {memo : Memo (W key)} (hget : s.table.get? key s.cursor = some memo) :
    memoize key body s = (.ok memo.result, s.moveTo memo.stop) := by
  simp [memoize, hget]

theorem memoize_of_none {key : K} (body : Recognizer K W E S (W key)) {s : State K W S}
    (hget : s.table.get? key s.cursor = none) :
    memoize key body s = andThen (body s) fun result s' =>
      (.ok result, s'.record key s.cursor { result, stop := s'.cursor }) := by
  rw [memoize, hget]
  rcases body s with ⟨halt | result, s'⟩ <;> rfl

theorem memoizeGrown_of_some {key : K} (body : Recognizer K W E S (W key)) (rounds : Nat)
    {s : State K W S} {memo : Memo (W key)} (hget : s.table.get? key s.cursor = some memo) :
    memoizeGrown key body rounds s = (.ok memo.result, s.moveTo memo.stop) := by
  simp [memoizeGrown, hget]

theorem memoizeGrown_of_none {key : K} (body : Recognizer K W E S (W key)) (rounds : Nat)
    {s : State K W S} (hget : s.table.get? key s.cursor = none) :
    memoizeGrown key body rounds s =
      grow key body s.cursor rounds { result := none, stop := s.cursor }
        (s.record key s.cursor { result := none, stop := s.cursor }) := by
  simp [memoizeGrown, hget]

/-! ## Rules -/

theorem expect_eq (wrapping : Wrapping K V W) (key : K) (callee : Recognizer K W E S (W key))
    (s : State K W S) : expect wrapping key callee s =
      andThen (callee s) fun kept s => (.ok (kept.bind (wrapping.unwrap key)), s) := by
  rw [expect]
  rcases callee s with ⟨halt | kept, s'⟩ <;> rfl

theorem Production.apply_eq (feed : Feed K T F E S) (wrapping : Wrapping K V W)
    (callee : (key : K) → Recognizer K W E S (W key)) (rounds : Nat) (key : K)
    (production : Production K V T F (V key)) (s : State K W S) :
    production.apply feed wrapping callee rounds key s =
      andThen (production.run feed (fun key => expect wrapping key (callee key)) rounds key s)
        fun result s => (.ok (result.map (wrapping.wrap key)), s) := by
  rw [apply]
  rcases production.run feed _ rounds key s with ⟨halt | result, s'⟩ <;> rfl

@[simp] theorem expect_plain (key : K) (callee : Recognizer K V E S (V key)) :
    expect .plain key callee = callee := by
  funext s
  rw [expect]
  rcases callee s with ⟨halt | _ | result, s'⟩ <;> rfl

@[simp] theorem Production.apply_plain (feed : Feed K T F E S)
    (callee : (key : K) → Recognizer K V E S (V key)) (rounds : Nat) (key : K)
    (production : Production K V T F (V key)) :
    production.apply feed .plain callee rounds key = production.run feed callee rounds key := by
  funext s
  simp only [apply, expect_plain]
  rcases production.run feed _ rounds key s with ⟨halt | _ | result, s'⟩ <;> rfl

/-- The way a rule is run : without memos, from the memo that it has, or, if it has none yet, so
that its outcome is remembered or grown. -/
inductive RunCase (grammar : Grammar K V T F) (key : K) (s : State K W S) : Prop
  | plain (h : grammar.strategy key = .plain)
  | memo {memo : Memo (W key)} (h : grammar.strategy key ≠ .plain)
    (hget : s.table.get? key s.cursor = some memo)
  | cached (h : grammar.strategy key = .cached) (hget : s.table.get? key s.cursor = none)
  | grown (h : grammar.strategy key = .grown) (hget : s.table.get? key s.cursor = none)

theorem runRule_cases (grammar : Grammar K V T F) (key : K) (s : State K W S) :
    RunCase grammar key s := by
  rcases hget : s.table.get? key s.cursor with _ | memo <;>
    cases h : grammar.strategy key with
    | plain => exact .plain h
    | cached => first | exact .cached h hget | exact .memo (by simp [h]) hget
    | grown => first | exact .grown h hget | exact .memo (by simp [h]) hget

section

variable {grammar : Grammar K V T F} {key : K} (body : Recognizer K W E S (W key)) (rounds : Nat)
  {s : State K W S}

theorem runRule_of_plain (h : grammar.strategy key = .plain) :
    runRule grammar key rounds body s = body s := by
  rw [runRule, h]

theorem runRule_of_memo {memo : Memo (W key)} (h : grammar.strategy key ≠ .plain)
    (hget : s.table.get? key s.cursor = some memo) :
    runRule grammar key rounds body s = (.ok memo.result, s.moveTo memo.stop) := by
  unfold runRule
  cases hstrategy : grammar.strategy key with
  | plain => exact absurd hstrategy h
  | cached => exact memoize_of_some body hget
  | grown => exact memoizeGrown_of_some body rounds hget

theorem runRule_of_cached (h : grammar.strategy key = .cached)
    (hget : s.table.get? key s.cursor = none) :
    runRule grammar key rounds body s = andThen (body s) fun result s' =>
      (.ok result, s'.record key s.cursor { result, stop := s'.cursor }) := by
  rw [runRule, h]
  exact memoize_of_none body hget

theorem runRule_of_grown (h : grammar.strategy key = .grown)
    (hget : s.table.get? key s.cursor = none) :
    runRule grammar key rounds body s =
      grow key body s.cursor rounds { result := none, stop := s.cursor }
        (s.record key s.cursor { result := none, stop := s.cursor }) := by
  rw [runRule, h]
  exact memoizeGrown_of_none body rounds hget

end

end OpticScript.Packrat
