import OpticScript.Packrat.Engine

/-!
# Outcomes of rules

What a rule of a grammar comes to at a position, said without a table and without a
state : its answer, the position after it, and how many of the items it has looked at
(`Outcome`). The items are a function of the position. `evaluate` runs the branches of a
rule as the engine does, but every call of a rule anew.

A grown rule needs its outcome so far when it calls itself where it begins. That call is
the only one that is answered from a memo (`seeded`), and the memo is an argument of the
evaluation.
-/

namespace OpticScript.Packrat

/-- Why an evaluation ends before its answer. -/
inductive Fault (F E : Type) where
  /-- There is an error in the place of an item. -/
  | item (error : E)
  | complaint (complaint : F)
  | outOfFuel

/-- What a part of a parse comes to. -/
structure Outcome (F E α : Type) where
  answer : Except (Fault F E) α
  /-- The position after it. -/
  stop : Nat
  /-- A bound on the positions of the items it has looked at. -/
  reach : Nat

variable {K : Type} [DecidableEq K] {V : K → Type} {T F E α β γ : Type}

namespace Outcome

/-- An answer that takes no item. -/
def here (a : α) (pos : Nat) : Outcome F E α := { answer := .ok a, stop := pos, reach := pos }

/-- The end of an evaluation. -/
def fail (fault : Fault F E) (pos : Nat) : Outcome F E α :=
  { answer := .error fault, stop := pos, reach := pos }

/-- One part after the other, unless the first one ends the evaluation. -/
def andThen (o : Outcome F E α) (next : α → Nat → Outcome F E β) : Outcome F E β :=
  match o.answer with
  | .error fault => { answer := .error fault, stop := o.stop, reach := o.reach }
  | .ok a =>
    { answer := (next a o.stop).answer, stop := (next a o.stop).stop,
      reach := max o.reach (next a o.stop).reach }

/-- One part after the other, unless the first one does not match. -/
def thenMatch (o : Outcome F E (Option α)) (next : α → Nat → Outcome F E (Option β)) :
    Outcome F E (Option β) :=
  o.andThen fun result stop =>
    match result with
    | none => here none stop
    | some a => next a stop

/-- What a part comes to, with something made of its answer. -/
def map (f : α → β) (o : Outcome F E α) : Outcome F E β :=
  { answer := o.answer.map f, stop := o.stop, reach := o.reach }

@[simp] theorem map_map (o : Outcome F E α) (f : α → β) (g : β → γ) :
    (o.map f).map g = o.map (g ∘ f) := by
  rcases o with ⟨fault | a, stop, reach⟩ <;> rfl

@[simp] theorem map_id (o : Outcome F E α) : o.map id = o := by
  rcases o with ⟨fault | a, stop, reach⟩ <;> rfl

@[simp] theorem map_stop (f : α → β) (o : Outcome F E α) : (o.map f).stop = o.stop := rfl

@[simp] theorem map_reach (f : α → β) (o : Outcome F E α) : (o.map f).reach = o.reach := rfl

theorem map_answer_ok {f : α → β} {o : Outcome F E α} {b : β} :
    (o.map f).answer = .ok b ↔ ∃ a, o.answer = .ok a ∧ f a = b := by
  rcases o with ⟨fault | a, stop, reach⟩ <;> simp [map, Except.map]

theorem map_answer_error {f : α → β} {o : Outcome F E α} {fault : Fault F E} :
    (o.map f).answer = .error fault ↔ o.answer = .error fault := by
  rcases o with ⟨fault | a, stop, reach⟩ <;> simp [map, Except.map]

theorem map_andThen (o : Outcome F E α) (next : α → Nat → Outcome F E β) (f : β → γ) :
    (o.andThen next).map f = o.andThen fun a stop => (next a stop).map f := by
  rcases o with ⟨fault | a, stop, reach⟩ <;> rfl

theorem andThen_ok {o : Outcome F E α} {a : α} (h : o.answer = .ok a)
    (next : α → Nat → Outcome F E β) :
    o.andThen next =
      { answer := (next a o.stop).answer, stop := (next a o.stop).stop,
        reach := max o.reach (next a o.stop).reach } := by
  simp [andThen, h]

theorem andThen_error {o : Outcome F E α} {fault : Fault F E} (h : o.answer = .error fault)
    (next : α → Nat → Outcome F E β) :
    o.andThen next = { answer := .error fault, stop := o.stop, reach := o.reach } := by
  simp [andThen, h]

theorem andThen_congr {o : Outcome F E α} {next next' : α → Nat → Outcome F E β}
    (h : ∀ a, o.answer = .ok a → next a o.stop = next' a o.stop) :
    o.andThen next = o.andThen next' := by
  cases ha : o.answer with
  | error fault => rw [andThen_error ha, andThen_error ha]
  | ok a => rw [andThen_ok ha, andThen_ok ha, h a ha]

theorem reach_le_andThen (o : Outcome F E α) (next : α → Nat → Outcome F E β) :
    o.reach ≤ (o.andThen next).reach := by
  cases h : o.answer with
  | error fault => exact Nat.le_of_eq (congrArg reach (andThen_error h next)).symm
  | ok a =>
    rw [andThen_ok h]
    exact Nat.le_max_left _ _

end Outcome

/-! ## Branches -/

/-- The item at a position, which is not taken. -/
def lookAt (items : Nat → Except E (Option T)) (pos : Nat) : Outcome F E (Option T) :=
  match items pos with
  | .ok item => { answer := .ok item, stop := pos, reach := pos + 1 }
  | .error e => { answer := .error (.item e), stop := pos, reach := pos + 1 }

/-- The item at a position, which is taken if it passes a test. -/
def takeAt (items : Nat → Except E (Option T)) (accept : T → Bool) (pos : Nat) :
    Outcome F E (Option T) :=
  (lookAt items pos).thenMatch fun item stop =>
    if accept item then { answer := .ok (some item), stop := stop + 1, reach := stop + 1 }
    else .here none stop

/-- Whether the item at a position passes a test, if there is one to pass. -/
def passesAt (items : Nat → Except E (Option T)) (pos : Nat) :
    Option (T → Bool) → Outcome F E Bool
  | none => .here true pos
  | some test => (lookAt items pos).andThen fun item stop => .here (item.any test) stop

/-- The matches of a rule one after the other; one that takes no item is the last. -/
def repeated (callee : Nat → Outcome F E (Option α)) : Nat → Nat → Outcome F E (List α)
  | 0, pos => .fail .outOfFuel pos
  | rounds + 1, pos =>
    (callee pos).andThen fun result stop =>
      match result with
      | none => .here [] stop
      | some a =>
        if stop = pos then .here [a] stop
        else (repeated callee rounds stop).andThen fun results stop => .here (a :: results) stop

/-- What the steps of a branch come to, with `callee` for the rules it calls. -/
def Branch.outcome (items : Nat → Except E (Option T))
    (callee : (key : K) → Nat → Outcome F E (Option (V key))) (rounds : Nat) :
    Branch K V T F α → Nat → Outcome F E (Option α)
  | done result, pos => .here (some result) pos
  | fail, pos => .here none pos
  | raise complaint, pos => .fail (.complaint complaint) pos
  | take accept next, pos =>
    (takeAt items accept pos).thenMatch fun item stop =>
      (next item).outcome items callee rounds stop
  | look next, pos =>
    (lookAt items pos).thenMatch fun item stop => (next item).outcome items callee rounds stop
  | call key next, pos =>
    (callee key pos).thenMatch fun result stop => (next result).outcome items callee rounds stop
  | maybe key ahead next, pos =>
    (callee key pos).andThen fun result stop =>
      match result with
      | none => (next none).outcome items callee rounds pos
      | some a =>
        (passesAt items stop ahead).andThen fun passed stop =>
          if passed then (next (some a)).outcome items callee rounds stop
          else (next none).outcome items callee rounds pos
  | star key next, pos =>
    (repeated (callee key) rounds pos).andThen fun results stop =>
      (next results).outcome items callee rounds stop

/-- The first of the branches that matches at `start`. -/
def firstOutcome (run : β → Nat → Outcome F E (Option α)) (start : Nat) (leaky : Bool) :
    List β → Nat → Outcome F E (Option α)
  | [], cursor => .here none (if leaky then cursor else start)
  | branch :: branches, _ =>
    (run branch start).andThen fun result stop =>
      match result with
      | some a => .here (some a) stop
      | none => firstOutcome run start leaky branches stop

/-- What the branches of a rule come to. -/
def Production.outcome (items : Nat → Except E (Option T))
    (callee : (key : K) → Nat → Outcome F E (Option (V key))) (rounds : Nat)
    (production : Production K V T F α) (pos : Nat) : Outcome F E (Option α) :=
  firstOutcome (Branch.outcome items callee rounds) pos production.leaky production.branches pos

/-! ## Rules -/

/-- A rule that is answered from a memo at `start`, and `callee` everywhere else. -/
def seeded (key : K) (start : Nat) (seed : Memo (V key))
    (callee : (key : K) → Nat → Outcome F E (Option (V key))) (other : K) (pos : Nat) :
    Outcome F E (Option (V other)) :=
  if h : key = other ∧ start = pos then .here (h.1 ▸ seed.result) seed.stop
  else callee other pos

/-- Evaluates `body` with the best outcome so far until it gets no farther. -/
def grownFrom (body : Memo α → Outcome F E (Option α)) (start : Nat) :
    Nat → Memo α → Outcome F E (Option α)
  | 0, _ => .fail .outOfFuel start
  | rounds + 1, best =>
    (body best).andThen fun result stop =>
      if result.isSome ∧ best.stop < stop then grownFrom body start rounds { result, stop }
      else .here best.result best.stop

/-- What a rule comes to at a position, with fuel for calls nested this deep. -/
def evaluate (grammar : Grammar K V T F) (items : Nat → Except E (Option T)) :
    Nat → (key : K) → Nat → Outcome F E (Option (V key))
  | 0, _, pos => .fail .outOfFuel pos
  | fuel + 1, key, pos =>
    if grammar.strategy key = .grown then
      grownFrom (fun seed => (grammar.production key).outcome items
        (seeded key pos seed (evaluate grammar items fuel)) fuel pos) pos fuel
        { result := none, stop := pos }
    else (grammar.production key).outcome items (evaluate grammar items fuel) fuel pos

end OpticScript.Packrat
