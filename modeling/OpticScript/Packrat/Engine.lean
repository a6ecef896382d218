import OpticScript.Packrat.Grammar
import OpticScript.Packrat.Table

/-!
# Packrat parsing

`call` runs a rule of a grammar at the cursor. Three strategies exist. A plain rule runs
its branches. A cached rule first looks for a memo and otherwise leaves one, so that it
runs once at a position. A grown rule is one that calls itself where it begins : it
first leaves a memo of failure, so that the call inside fails and another branch gives a
seed; its branches are then run again and again, each time with the best outcome so far
as the memo, for as long as they get farther.

A state of a parse is a cursor, a memo table, and whatever the items are fed from. An
error of the feed and a complaint of a branch end the parse where it is (`Halt.fatal`).
The state survives, so the parse can be taken up again.

The table keeps results wrapped, and `call` gives them so. A branch calls a rule through
`expect`, which takes the result out again : a match whose result is not of the kind that the
branch wants is discarded.

Rules nest and repeat without a bound that can be read off a grammar, so `call` takes
fuel : it bounds the depth of calls, and at each depth the number of repetitions.
-/

namespace OpticScript.Packrat

/-- Why a parse ended before its outcome. -/
inductive Halt (E : Type) where
  | fatal (error : E)
  | outOfFuel
  deriving DecidableEq

/-- What happens to a rule. -/
inductive Event (K : Type) where
  /-- It is called. -/
  | attempt (key : K)
  /-- Its branches are run. -/
  | run (key : K)
  | matched (key : K) (stop : Nat)
  | failed (key : K)
  /-- The parse ended inside it. -/
  | abandoned (key : K)

/-- Where the items of a parse come from : the item at a position, the error that a
complaint amounts to, and what an event leaves behind. -/
structure Feed (K T F E S : Type) where
  item : Nat → S → Except E (Option T) × S
  report : F → S → E
  observe : Event K → S → S

/-- The state of a parse. -/
structure State (K : Type) (V : K → Type) (S : Type) where
  cursor : Nat
  table : Table K V
  feed : S

/-- A part of a parse. -/
abbrev Step (K : Type) (V : K → Type) (E S α : Type) :=
  State K V S → Except (Halt E) α × State K V S

/-- A part of a parse that may fail to match. -/
abbrev Recognizer (K : Type) (V : K → Type) (E S α : Type) := Step K V E S (Option α)

variable {K : Type} [DecidableEq K] {V W : K → Type} {T F E S α : Type}

namespace State

/-- The parse at another position. -/
def moveTo (s : State K W S) (pos : Nat) : State K W S := { s with cursor := pos }

/-- The parse with a memo for the rule at `start`. -/
def record (s : State K W S) (key : K) (start : Nat) (memo : Memo (W key)) : State K W S :=
  { s with table := s.table.insert key start memo }

def observe (feed : Feed K T F E S) (event : Event K) (s : State K W S) : State K W S :=
  { s with feed := feed.observe event s.feed }

/-- The item at the cursor. -/
def item (feed : Feed K T F E S) (s : State K W S) : Except E (Option T) × State K W S :=
  let (answer, after) := feed.item s.cursor s.feed
  (answer, { s with feed := after })

end State

/-! ## Branches -/

/-- The matches of a rule one after the other; one that consumes nothing is the last. -/
def repeatedly (callee : Recognizer K W E S α) : Nat → Step K W E S (List α)
  | 0, s => (.error .outOfFuel, s)
  | rounds + 1, s =>
    let start := s.cursor
    match callee s with
    | (.error halt, s) => (.error halt, s)
    | (.ok none, s) => (.ok [], s)
    | (.ok (some result), s) =>
      if s.cursor = start then (.ok [result], s)
      else
        match repeatedly callee rounds s with
        | (.error halt, s) => (.error halt, s)
        | (.ok results, s) => (.ok (result :: results), s)

/-- Whether the item at the cursor passes a test, if there is one to pass. -/
def passes (feed : Feed K T F E S) : Option (T → Bool) → Step K W E S Bool
  | none, s => (.ok true, s)
  | some test, s =>
    match s.item feed with
    | (.error e, s) => (.error (.fatal e), s)
    | (.ok item, s) => (.ok (item.any test), s)

/-- Runs the steps of a branch, with `callee` for the rules it calls. -/
def Branch.run (feed : Feed K T F E S) (callee : (key : K) → Recognizer K W E S (V key))
    (rounds : Nat) : Branch K V T F α → Recognizer K W E S α
  | done result, s => (.ok (some result), s)
  | fail, s => (.ok none, s)
  | raise complaint, s => (.error (.fatal (feed.report complaint s.feed)), s)
  | take accept next, s =>
    match s.item feed with
    | (.error e, s) => (.error (.fatal e), s)
    | (.ok none, s) => (.ok none, s)
    | (.ok (some item), s) =>
      if accept item then (next item).run feed callee rounds (s.moveTo (s.cursor + 1))
      else (.ok none, s)
  | look next, s =>
    match s.item feed with
    | (.error e, s) => (.error (.fatal e), s)
    | (.ok none, s) => (.ok none, s)
    | (.ok (some item), s) => (next item).run feed callee rounds s
  | call key next, s =>
    match callee key s with
    | (.error halt, s) => (.error halt, s)
    | (.ok none, s) => (.ok none, s)
    | (.ok (some result), s) => (next result).run feed callee rounds s
  | maybe key ahead next, s =>
    let start := s.cursor
    match callee key s with
    | (.error halt, s) => (.error halt, s)
    | (.ok none, s) => (next none).run feed callee rounds (s.moveTo start)
    | (.ok (some result), s) =>
      match passes feed ahead s with
      | (.error halt, s) => (.error halt, s)
      | (.ok true, s) => (next (some result)).run feed callee rounds s
      | (.ok false, s) => (next none).run feed callee rounds (s.moveTo start)
  | star key next, s =>
    match repeatedly (callee key) rounds s with
    | (.error halt, s) => (.error halt, s)
    | (.ok results, s) => (next results).run feed callee rounds s

/-- The first of the branches that matches at `start`. -/
def firstMatch (run : Branch K V T F α → Recognizer K W E S α) (start : Nat) (leaky : Bool) :
    List (Branch K V T F α) → Recognizer K W E S α
  | [], s => (.ok none, if leaky then s else s.moveTo start)
  | branch :: branches, s =>
    match run branch (s.moveTo start) with
    | (.ok none, s) => firstMatch run start leaky branches s
    | answer => answer

/-- Runs the branches of a rule once. -/
def Production.run (feed : Feed K T F E S) (callee : (key : K) → Recognizer K W E S (V key))
    (rounds : Nat) (key : K) (production : Production K V T F α) : Recognizer K W E S α :=
  fun s =>
    firstMatch (Branch.run feed callee rounds) s.cursor production.leaky production.branches
      (s.observe feed (.run key))

/-! ## Memos -/

/-- Runs `body` unless its outcome at the cursor is known. -/
def memoize (key : K) (body : Recognizer K W E S (W key)) : Recognizer K W E S (W key) :=
  fun s =>
    let start := s.cursor
    match s.table.get? key start with
    | some memo => (.ok memo.result, s.moveTo memo.stop)
    | none =>
      match body s with
      | (.error halt, s) => (.error halt, s)
      | (.ok result, s) => (.ok result, s.record key start { result, stop := s.cursor })

/-- Runs `body` at `start` until it gets no farther than `best`. -/
def grow (key : K) (body : Recognizer K W E S (W key)) (start : Nat) :
    Nat → Memo (W key) → Recognizer K W E S (W key)
  | 0, _, s => (.error .outOfFuel, s)
  | rounds + 1, best, s =>
    match body (s.moveTo start) with
    | (.error halt, s) => (.error halt, s)
    | (.ok result, s) =>
      if result.isSome ∧ best.stop < s.cursor then
        let better := { result, stop := s.cursor }
        grow key body start rounds better (s.record key start better)
      else
        (.ok best.result, s.moveTo best.stop)

/-- Grows the outcome of `body` from a seed unless it is known. -/
def memoizeGrown (key : K) (body : Recognizer K W E S (W key)) (rounds : Nat) :
    Recognizer K W E S (W key) :=
  fun s =>
    let start := s.cursor
    match s.table.get? key start with
    | some memo => (.ok memo.result, s.moveTo memo.stop)
    | none =>
      let failure := { result := none, stop := start }
      grow key body start rounds failure (s.record key start failure)

/-! ## Rules -/

/-- The event that an answer of a rule is. -/
def outcomeEvent (key : K) (stop : Nat) : Except (Halt E) (Option α) → Event K
  | .ok (some _) => .matched key stop
  | .ok none => .failed key
  | .error _ => .abandoned key

/-- Runs a rule in the way its strategy says. -/
def runRule (grammar : Grammar K V T F) (key : K) (rounds : Nat)
    (body : Recognizer K W E S (W key)) : Recognizer K W E S (W key) :=
  match grammar.strategy key with
  | .plain => body
  | .cached => memoize key body
  | .grown => memoizeGrown key body rounds

/-- What a rule has matched, taken out of its wrapping. A match of another kind is discarded, and
the cursor stays behind it. -/
def expect (wrapping : Wrapping K V W) (key : K) (callee : Recognizer K W E S (W key)) :
    Recognizer K W E S (V key) :=
  fun s =>
    match callee s with
    | (.error halt, s) => (.error halt, s)
    | (.ok kept, s) => (.ok (kept.bind (wrapping.unwrap key)), s)

/-- Runs the branches of a rule once and wraps the result. -/
def Production.apply (feed : Feed K T F E S) (wrapping : Wrapping K V W)
    (callee : (key : K) → Recognizer K W E S (W key)) (rounds : Nat) (key : K)
    (production : Production K V T F (V key)) : Recognizer K W E S (W key) :=
  fun s =>
    match production.run feed (fun key => expect wrapping key (callee key)) rounds key s with
    | (.error halt, s) => (.error halt, s)
    | (.ok result, s) => (.ok (result.map (wrapping.wrap key)), s)

/-- Runs a rule at the cursor, with fuel for calls nested this deep. -/
def call (grammar : Grammar K V T F) (wrapping : Wrapping K V W) (feed : Feed K T F E S) :
    Nat → (key : K) → Recognizer K W E S (W key)
  | 0, _, s => (.error .outOfFuel, s)
  | fuel + 1, key, s =>
    let body :=
      (grammar.production key).apply feed wrapping (call grammar wrapping feed fuel) fuel key
    match runRule grammar key fuel body (s.observe feed (.attempt key)) with
    | (answer, s) => (answer, s.observe feed (outcomeEvent key s.cursor answer))

end OpticScript.Packrat
