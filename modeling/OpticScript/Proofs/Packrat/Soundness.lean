import OpticScript.Proofs.Packrat.Order

/-!
# Matches are derivations

What a match of a rule means is a relation of a position, the position after the match
and the result (`Meaning`). A branch yields a property if the property holds at its end
whenever the items that the branch takes are there and the rules that it calls mean what
they say (`Branch.Yields`). If every branch of every rule yields the meaning of the rule,
then every match has its meaning (`evaluate_means`), that of a grown rule included : each
round of growing puts one more layer around the match before.
-/

set_option linter.unusedSectionVars false

namespace OpticScript.Packrat

variable {K : Type} [DecidableEq K] {V : K → Type} {T F E α β : Type}

open Outcome

/-- What a match of a rule from one position to another means for its result. -/
abbrev Meaning (K : Type) (V : K → Type) := (key : K) → Nat → Nat → V key → Prop

/-- Matches one after the other. -/
inductive Chain (means : Nat → Nat → α → Prop) : Nat → Nat → List α → Prop
  | nil (pos : Nat) : Chain means pos pos []
  | cons {pos mid stop : Nat} {a : α} {as : List α} (head : means pos mid a)
      (tail : Chain means mid stop as) : Chain means pos stop (a :: as)

/-- The branch ends with `Q` wherever it matches from a position. -/
def Branch.Yields (items : Nat → Except E (Option T)) (means : Meaning K V)
    (Q : α → Nat → Prop) : Branch K V T F α → Nat → Prop
  | done a, pos => Q a pos
  | fail, _ => True
  | raise _, _ => True
  | take accept next, pos =>
    ∀ t, items pos = .ok (some t) → accept t = true → (next t).Yields items means Q (pos + 1)
  | look next, pos => ∀ t, items pos = .ok (some t) → (next t).Yields items means Q pos
  | call key next, pos =>
    ∀ a stop, means key pos stop a → (next a).Yields items means Q stop
  | maybe key ahead next, pos =>
    (next none).Yields items means Q pos ∧
      ∀ a stop, means key pos stop a →
        (∀ test, ahead = some test → ∃ t, items stop = .ok (some t) ∧ test t = true) →
        (next (some a)).Yields items means Q stop
  | star key next, pos =>
    ∀ as stop, Chain (means key) pos stop as → (next as).Yields items means Q stop

section

variable {items : Nat → Except E (Option T)} {means : Meaning K V} {Q : α → Nat → Prop}

@[simp] theorem Branch.yields_require_bind {condition : Bool} {next : Unit → Branch K V T F α}
    {pos : Nat} : ((require condition).bind next).Yields items means Q pos ↔
      (condition = true → (next ()).Yields items means Q pos) := by
  cases condition <;> simp [require, Branch.bind, Yields]

@[simp] theorem Branch.yields_ofOption_bind {value : Option β} {next : β → Branch K V T F α}
    {pos : Nat} : ((ofOption value).bind next).Yields items means Q pos ↔
      ∀ b, value = some b → (next b).Yields items means Q pos := by
  cases value <;> simp [ofOption, Branch.bind, Yields]

/-- Every match has its meaning. -/
def Means (means : Nat → Nat → α → Prop) (callee : Nat → Outcome F E (Option α)) : Prop :=
  ∀ pos, (callee pos).Ensures fun result stop => ∀ a, result = some a → means pos stop a

theorem passesAt_ensures (items : Nat → Except E (Option T)) (pos : Nat)
    (ahead : Option (T → Bool)) :
    (passesAt items pos ahead : Outcome F E Bool).Ensures fun passed stop =>
      stop = pos ∧ (passed = true →
        ∀ test, ahead = some test → ∃ t, items pos = .ok (some t) ∧ test t = true) := by
  cases ahead with
  | none => exact ensures_here.2 (by simp)
  | some test =>
    refine ensures_andThen.2 ((lookAt_ensures items pos).imp fun item stop h => ensures_here.2 ?_)
    obtain ⟨hitem, rfl⟩ := h
    cases item <;> simp_all

/-- A failure of a rule leaves the position where it was. -/
def Returns (callee : Nat → Outcome F E (Option α)) : Prop :=
  ∀ pos, (callee pos).Ensures fun result stop => result = none → stop = pos

theorem repeated_means {means : Nat → Nat → α → Prop} {callee : Nat → Outcome F E (Option α)}
    (hback : Returns callee)
    (hcallee : Means means callee) :
    ∀ rounds pos, (repeated callee rounds pos).Ensures fun as stop => Chain means pos stop as
  | 0, _ => ensures_fail
  | rounds + 1, pos => by
    refine ensures_andThen.2 fun result hr => ?_
    cases result with
    | none =>
      rw [hback pos none hr rfl]
      exact ensures_here.2 (.nil pos)
    | some a =>
      have hhead := hcallee pos _ hr a rfl
      dsimp only
      split
      · exact ensures_here.2 (.cons hhead (.nil _))
      · refine ensures_andThen.2 ((repeated_means hback hcallee rounds _).imp
          fun as stop htail => ensures_here.2 (.cons hhead htail))

theorem Branch.outcome_yields {callee : (key : K) → Nat → Outcome F E (Option (V key))}
    (hback : ∀ key, Returns (callee key))
    (hcallee : ∀ key, Means (means key) (callee key)) (rounds : Nat) (branch : Branch K V T F α)
    {pos : Nat} (hb : branch.Yields items means Q pos) :
    (branch.outcome items callee rounds pos).Ensures fun result stop =>
      ∀ a, result = some a → Q a stop := by
  induction branch generalizing pos with
  | done a =>
    refine ensures_here.2 fun b hab => ?_
    obtain rfl := Option.some.inj hab
    exact hb
  | fail => exact ensures_here.2 (by simp)
  | raise complaint => exact ensures_fail
  | take accept next ih =>
    refine ensures_thenMatch.2 ((takeAt_ensures items accept pos).imp fun item stop h => ?_)
    cases item with
    | none => simp
    | some t =>
      obtain ⟨hitem, haccept, rfl⟩ := h t rfl
      exact ih t (hb t hitem haccept)
  | look next ih =>
    refine ensures_thenMatch.2 ((lookAt_ensures items pos).imp fun item stop h => ?_)
    obtain ⟨hitem, rfl⟩ := h
    cases item with
    | none => simp
    | some t => exact ih t (hb t hitem)
  | call key next ih =>
    refine ensures_thenMatch.2 ((hcallee key pos).imp fun result stop h => ?_)
    cases result with
    | none => simp
    | some a => exact ih a (hb a stop (h a rfl))
  | maybe key ahead next ih =>
    rw [Branch.outcome, ensures_andThen]
    refine (hcallee key pos).imp fun result stop h => ?_
    cases result with
    | none => exact ih none hb.1
    | some a =>
      refine ensures_andThen.2 ((passesAt_ensures items stop ahead).imp fun passed stop' hp => ?_)
      obtain ⟨rfl, htest⟩ := hp
      cases passed with
      | true => exact ih (some a) (hb.2 a stop' (h a rfl) (htest rfl))
      | false => exact ih none hb.1
  | star key next ih =>
    refine ensures_andThen.2 ((repeated_means (hback key) (hcallee key) rounds pos).imp
      fun as stop h => ?_)
    exact ih as (hb as stop h)

end

theorem seeded_means {means : Meaning K V} {key : K} {start : Nat} {seed : Memo (V key)}
    (hseed : ∀ a, seed.result = some a → means key start seed.stop a)
    {callee : (key : K) → Nat → Outcome F E (Option (V key))}
    (hcallee : ∀ key, Means (means key) (callee key)) (other : K) :
    Means (means other) (seeded key start seed callee other) := by
  intro pos
  unfold seeded
  split
  · rename_i h
    obtain ⟨rfl, rfl⟩ := h
    exact ensures_here.2 hseed
  · exact hcallee other pos

theorem seeded_returns {key : K} {start : Nat} {seed : Memo (V key)}
    (hseed : seed.result = none → seed.stop = start)
    {callee : (key : K) → Nat → Outcome F E (Option (V key))}
    (hcallee : ∀ key, Returns (callee key)) (other : K) :
    Returns (seeded key start seed callee other) := by
  intro pos
  unfold seeded
  split
  · rename_i h
    obtain ⟨rfl, rfl⟩ := h
    exact ensures_here.2 hseed
  · exact hcallee other pos

theorem firstOutcome_returns {run : β → Nat → Outcome F E (Option α)} {start : Nat} :
    ∀ branches cursor, (firstOutcome run start false branches cursor).Ensures fun result stop =>
      result = none → stop = start
  | [], _ => ensures_here.2 fun _ => rfl
  | branch :: branches, _ => by
    refine ensures_andThen.2 fun result _ => ?_
    cases result with
    | some a => exact ensures_here.2 (by simp)
    | none => exact firstOutcome_returns branches _

section

variable {grammar : Grammar K V T F} {items : Nat → Except E (Option T)}

theorem evaluate_returns (hleaky : ∀ key, (grammar.production key).leaky = false) (fuel : Nat)
    (key : K) : Returns (evaluate grammar items fuel key) := by
  intro pos
  cases fuel with
  | zero => exact ensures_fail
  | succ fuel =>
    rw [evaluate]
    split
    · exact grownFrom_ensures (P := fun memo => memo.result = none → memo.stop = pos)
        (fun _ _ _ _ hsome _ hnone => absurd hnone (Option.isSome_iff_ne_none.1 hsome)) fuel _
          fun _ => rfl
    · rw [Production.outcome, hleaky]
      exact firstOutcome_returns _ pos

/-- If the branches of every rule yield its meaning then every match has its meaning. -/
theorem evaluate_means {means : Meaning K V}
    (hleaky : ∀ key, (grammar.production key).leaky = false)
    (hmeans : ∀ key, ∀ branch ∈ (grammar.production key).branches, ∀ pos,
      branch.Yields items means (fun a stop => means key pos stop a) pos) (fuel : Nat) (key : K) :
    Means (means key) (evaluate grammar items fuel key) := by
  induction fuel generalizing key with
  | zero => exact fun _ => ensures_fail
  | succ fuel ih =>
    intro pos
    have hback : ∀ key, Returns (evaluate grammar items fuel key) := evaluate_returns hleaky fuel
    rw [evaluate]
    split
    · -- a round of growing puts one more layer around the outcome so far
      refine (grownFrom_ensures (P := fun memo => (∀ a, memo.result = some a →
        means key pos memo.stop a) ∧ (memo.result = none → memo.stop = pos))
        (fun best hbest result hr hsome _ => ⟨?_, ?_⟩) fuel _ ⟨by simp, fun _ => rfl⟩).imp
          fun _ _ h => h.1
      · exact firstOutcome_ensures (P := fun a stop => means key pos stop a) _ _
          (fun branch hb => branch.outcome_yields (seeded_returns hbest.2 hback)
            (seeded_means hbest.1 ih) fuel (hmeans key branch hb pos)) pos result hr
      · exact fun hnone => absurd hnone (Option.isSome_iff_ne_none.1 hsome)
    · exact firstOutcome_ensures (P := fun a stop => means key pos stop a) _ _
        (fun branch hb => branch.outcome_yields hback ih fuel (hmeans key branch hb pos)) pos

end

end OpticScript.Packrat
