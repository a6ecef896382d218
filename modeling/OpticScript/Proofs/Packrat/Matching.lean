import Mathlib.Order.Filter.AtTopBot.Basic
import OpticScript.Proofs.Packrat.Evaluation

/-!
# Matches with enough fuel

How to show that a rule matches at a position. With all but finitely many amounts of fuel the
rule comes to the same answer there (`Matches`) : a part of a branch does (`Branch.Matches`) if
the rules that it calls do, one after the other, and the branches of a rule do
(`Branches.Match`) if one of them does and those before it fail.

A grown rule is grown step by step (`Grows`). Each step starts from the outcome so far, and the
last one is the first that gets no farther.
-/

namespace OpticScript.Packrat

open Filter

variable {K : Type} {V : K → Type} {T F E α β : Type}

/-- The answer and the position after it. -/
def Outcome.ComesTo (o : Outcome F E α) (a : α) (stop : Nat) : Prop :=
  o.answer = .ok a ∧ o.stop = stop

namespace Outcome

variable {o : Outcome F E α} {next : α → Nat → Outcome F E β} {a : α} {b : β} {pos stop : Nat}

theorem comesTo_here (a : α) (pos : Nat) : (here a pos : Outcome F E α).ComesTo a pos := ⟨rfl, rfl⟩

theorem ComesTo.andThen (h : o.ComesTo a pos) (hnext : (next a pos).ComesTo b stop) :
    (o.andThen next).ComesTo b stop := by
  obtain ⟨hanswer, rfl⟩ := h
  rw [andThen_ok hanswer]
  exact hnext

theorem ComesTo.thenMatch {o : Outcome F E (Option α)} {next : α → Nat → Outcome F E (Option β)}
    {b : Option β} (h : o.ComesTo (some a) pos) (hnext : (next a pos).ComesTo b stop) :
    (o.thenMatch next).ComesTo b stop :=
  h.andThen hnext

theorem ComesTo.thenMatch_none {o : Outcome F E (Option α)}
    {next : α → Nat → Outcome F E (Option β)} (h : o.ComesTo none pos) :
    (o.thenMatch next).ComesTo none pos :=
  h.andThen (comesTo_here none pos)

theorem comesTo_lookAt {items : Nat → Except E (Option T)} {t : Option T} (h : items pos = .ok t) :
    (lookAt items pos : Outcome F E (Option T)).ComesTo t pos := by
  rw [lookAt, h]
  exact ⟨rfl, rfl⟩

end Outcome

open Outcome

/-! ## Branches -/

/-- A rule comes to this with enough fuel, if it is called in the given way. -/
def Matches (callee : Nat → (key : K) → Nat → Outcome F E (Option (V key))) (key : K) (pos : Nat)
    (result : Option (V key)) (stop : Nat) : Prop :=
  ∀ᶠ fuel in atTop, (callee fuel key pos).ComesTo result stop

section

variable {items : Nat → Except E (Option T)}
  {callee : Nat → (key : K) → Nat → Outcome F E (Option (V key))} {key : K} {pos mid stop : Nat}

/-- A rule comes to one thing at most. -/
theorem Matches.unique {result result' : Option (V key)} {stop' : Nat}
    (h : Matches callee key pos result stop) (h' : Matches callee key pos result' stop') :
    result = result' ∧ stop = stop' := by
  obtain ⟨fuel, ⟨hanswer, hstop⟩, hanswer', hstop'⟩ := (h.and h').exists
  exact ⟨Except.ok.inj (hanswer.symm.trans hanswer'), hstop.symm.trans hstop'⟩

/-- What is left of a branch comes to this with enough fuel. -/
def Branch.Matches (items : Nat → Except E (Option T))
    (callee : Nat → (key : K) → Nat → Outcome F E (Option (V key))) (branch : Branch K V T F α)
    (pos : Nat) (result : Option α) (stop : Nat) : Prop :=
  ∀ᶠ fuel in atTop, (branch.outcome items (callee fuel) fuel pos).ComesTo result stop

namespace Branch

variable {result : Option α} {ahead : Option (T → Bool)} {t : T}

theorem matches_done (a : α) (pos : Nat) :
    (done a : Branch K V T F α).Matches items callee pos (some a) pos :=
  .of_forall fun _ => comesTo_here _ _

theorem matches_fail (pos : Nat) : (fail : Branch K V T F α).Matches items callee pos none pos :=
  .of_forall fun _ => comesTo_here _ _

theorem matches_take {accept : T → Bool} {next : T → Branch K V T F α}
    (hitem : items pos = .ok (some t)) (haccept : accept t = true)
    (h : (next t).Matches items callee (pos + 1) result stop) :
    (take accept next).Matches items callee pos result stop := by
  refine h.mono fun fuel h => ComesTo.thenMatch ?_ h
  refine (comesTo_lookAt hitem).thenMatch ?_
  rw [if_pos haccept]
  exact ⟨rfl, rfl⟩

theorem matches_take_none {accept : T → Bool} {next : T → Branch K V T F α}
    (hitem : items pos = .ok (some t)) (haccept : accept t = false) :
    (take accept next).Matches items callee pos none pos := by
  refine .of_forall fun fuel => ComesTo.thenMatch_none ?_
  refine (comesTo_lookAt hitem).thenMatch ?_
  rw [if_neg (by simp [haccept])]
  exact comesTo_here _ _

/-- There is no item to take. -/
theorem matches_take_end {accept : T → Bool} {next : T → Branch K V T F α}
    (hitem : items pos = .ok none) : (take accept next).Matches items callee pos none pos :=
  .of_forall fun _ => (comesTo_lookAt hitem).thenMatch_none.thenMatch_none

theorem matches_look {next : T → Branch K V T F α} (hitem : items pos = .ok (some t))
    (h : (next t).Matches items callee pos result stop) :
    (look next).Matches items callee pos result stop :=
  h.mono fun _ h => (comesTo_lookAt hitem).thenMatch h

theorem matches_call {next : V key → Branch K V T F α} {a : V key}
    (hcall : Packrat.Matches callee key pos (some a) mid)
    (h : (next a).Matches items callee mid result stop) :
    (call key next).Matches items callee pos result stop := by
  filter_upwards [hcall, h] with fuel hcall h
  exact hcall.thenMatch h

theorem matches_call_none {next : V key → Branch K V T F α}
    (hcall : Packrat.Matches callee key pos none mid) :
    (call key next).Matches items callee pos none mid := by
  filter_upwards [hcall] with fuel hcall
  exact hcall.thenMatch_none

theorem matches_maybe {next : Option (V key) → Branch K V T F α} {a : V key}
    (hcall : Packrat.Matches callee key pos (some a) mid)
    (h : (next (some a)).Matches items callee mid result stop) :
    (maybe key none next).Matches items callee pos result stop := by
  filter_upwards [hcall, h] with fuel hcall h
  rw [Branch.outcome]
  refine hcall.andThen ?_
  exact (comesTo_here true mid).andThen h

theorem matches_maybe_none {next : Option (V key) → Branch K V T F α}
    (hcall : Packrat.Matches callee key pos none mid)
    (h : (next none).Matches items callee pos result stop) :
    (maybe key ahead next).Matches items callee pos result stop := by
  filter_upwards [hcall, h] with fuel hcall h
  rw [Branch.outcome]
  exact hcall.andThen h

/-- A match of a rule and an item after it that passes the test. -/
theorem matches_maybe_ahead {next : Option (V key) → Branch K V T F α} {a : V key} {test : T → Bool}
    (hcall : Packrat.Matches callee key pos (some a) mid) (hitem : items mid = .ok (some t))
    (htest : test t = true) (h : (next (some a)).Matches items callee mid result stop) :
    (maybe key (some test) next).Matches items callee pos result stop := by
  filter_upwards [hcall, h] with fuel hcall h
  rw [Branch.outcome]
  refine hcall.andThen ?_
  have hpasses : (passesAt items mid (some test) : Outcome F E Bool).ComesTo true mid := by
    rw [passesAt]
    refine (comesTo_lookAt hitem).andThen ?_
    rw [Option.any_some, htest]
    exact comesTo_here _ _
  exact hpasses.andThen h

theorem matches_require {condition : Bool} {next : Unit → Branch K V T F α} (hc : condition = true)
    (h : (next ()).Matches items callee pos result stop) :
    ((require condition).bind next).Matches items callee pos result stop := by
  rw [hc]
  exact h

theorem matches_require_none {condition : Bool} {next : Unit → Branch K V T F α}
    (hc : condition = false) :
    ((require condition).bind next).Matches items callee pos none pos := by
  rw [hc]
  exact matches_fail pos

theorem matches_ofOption {o : Option β} {b : β} {next : β → Branch K V T F α} (hb : o = some b)
    (h : (next b).Matches items callee pos result stop) :
    ((ofOption o).bind next).Matches items callee pos result stop := by
  rw [hb]
  exact h

end Branch

/-- A rule matches so many times, and not once more. -/
inductive Repeats (callee : Nat → (key : K) → Nat → Outcome F E (Option (V key))) (key : K) :
    Nat → List (V key) → Nat → Prop
  | nil {pos : Nat} (h : Matches callee key pos none pos) : Repeats callee key pos [] pos
  | cons {pos mid stop : Nat} {a : V key} {as : List (V key)}
      (head : Matches callee key pos (some a) mid) (hmid : pos < mid)
      (tail : Repeats callee key mid as stop) : Repeats callee key pos (a :: as) stop

theorem Repeats.le {as : List (V key)} (h : Repeats callee key pos as stop) : pos ≤ stop := by
  induction h with
  | nil => exact Nat.le_refl _
  | cons _ hmid _ ih => omega

theorem Repeats.imp {callee' : Nat → (key : K) → Nat → Outcome F E (Option (V key))}
    {as : List (V key)} (h : Repeats callee key pos as stop)
    (hcallee : ∀ pos result stop, Matches callee key pos result stop →
      Matches callee' key pos result stop) : Repeats callee' key pos as stop := by
  induction h with
  | nil h => exact .nil (hcallee _ _ _ h)
  | cons head hmid _ ih => exact .cons (hcallee _ _ _ head) hmid ih

theorem Repeats.comesTo {as : List (V key)} (h : Repeats callee key pos as stop) :
    ∀ᶠ fuel in atTop, ∀ rounds > as.length,
      (repeated (callee fuel key) rounds pos).ComesTo as stop := by
  induction h with
  | nil h =>
    refine h.mono fun fuel h rounds hrounds => ?_
    obtain ⟨rounds, rfl⟩ := Nat.exists_eq_add_of_lt hrounds
    exact h.andThen (comesTo_here _ _)
  | cons head hmid tail ih =>
    filter_upwards [head, ih] with fuel head ih rounds hrounds
    obtain ⟨rounds, rfl⟩ := Nat.exists_eq_succ_of_ne_zero (show rounds ≠ 0 by omega)
    refine head.andThen ?_
    dsimp only
    rw [if_neg (by omega)]
    exact (ih rounds (by simpa using hrounds)).andThen (comesTo_here _ _)

theorem Branch.matches_star {next : List (V key) → Branch K V T F α} {as : List (V key)}
    {result : Option α} (hrepeats : Repeats callee key pos as mid)
    (h : (next as).Matches items callee mid result stop) :
    (star key next).Matches items callee pos result stop := by
  filter_upwards [hrepeats.comesTo, h, eventually_gt_atTop as.length] with fuel hrepeats h hfuel
  exact (hrepeats fuel hfuel).andThen h

/-- The first of the branches that does not fail comes to this with enough fuel. -/
def Branches.Match (items : Nat → Except E (Option T))
    (callee : Nat → (key : K) → Nat → Outcome F E (Option (V key)))
    (branches : List (Branch K V T F α)) (start : Nat) (result : Option α) (stop : Nat) : Prop :=
  ∀ᶠ fuel in atTop, ∀ cursor,
    (firstOutcome (Branch.outcome items (callee fuel) fuel) start false branches cursor).ComesTo
      result stop

namespace Branches

variable {branch : Branch K V T F α} {branches : List (Branch K V T F α)} {start : Nat}
  {result : Option α}

theorem match_nil (start : Nat) :
    Match items callee ([] : List (Branch K V T F α)) start none start :=
  .of_forall fun _ _ => comesTo_here _ _

theorem match_head {a : α} (h : branch.Matches items callee start (some a) stop) :
    Match items callee (branch :: branches) start (some a) stop :=
  h.mono fun _ h _ => h.andThen (comesTo_here _ _)

theorem match_tail (hbranch : branch.Matches items callee start none mid)
    (h : Match items callee branches start result stop) :
    Match items callee (branch :: branches) start result stop := by
  filter_upwards [hbranch, h] with fuel hbranch h cursor
  exact hbranch.andThen (h mid)

/-- The first branches fail, and so the others are tried. -/
theorem match_append {before : List (Branch K V T F α)}
    (hbefore : ∀ branch ∈ before, ∃ mid, branch.Matches items callee start none mid)
    (h : Match items callee branches start result stop) :
    Match items callee (before ++ branches) start result stop := by
  induction before with
  | nil => exact h
  | cons branch before ih =>
    obtain ⟨⟨mid, hbranch⟩, hbefore⟩ := List.forall_mem_cons.1 hbefore
    exact match_tail hbranch (ih hbefore)

/-- A rule whose failures leave the cursor elsewhere gives the same result, and a match stops at
the same place. -/
theorem firstOutcome_leaky {outcome : Branch K V T F α → Nat → Outcome F E (Option α)}
    {leaky : Bool}
    {cursor : Nat} (h : (firstOutcome outcome start false branches cursor).ComesTo result stop) :
    ∃ stop', (firstOutcome outcome start leaky branches cursor).ComesTo result stop' ∧
      (result.isSome = true → stop' = stop) := by
  induction branches generalizing cursor with
  | nil =>
    obtain ⟨hanswer, -⟩ := h
    obtain rfl : none = result := Except.ok.inj hanswer
    exact ⟨_, comesTo_here _ _, by simp⟩
  | cons branch branches ih =>
    rcases hfirst : (outcome branch start).answer with fault | (_ | a)
    · rw [firstOutcome, ComesTo, andThen_error hfirst] at h
      simp at h
    · rw [firstOutcome, ComesTo, andThen_ok hfirst] at h
      obtain ⟨stop', hmore, hsome⟩ := ih h
      exact ⟨stop', ComesTo.andThen ⟨hfirst, rfl⟩ hmore, hsome⟩
    · rw [firstOutcome, ComesTo, andThen_ok hfirst] at h
      refine ⟨stop, ?_, fun _ => rfl⟩
      rw [firstOutcome, ComesTo, andThen_ok hfirst]
      exact h

theorem Match.outcome {production : Production K V T F α}
    (h : Match items callee production.branches start result stop) :
    ∀ᶠ fuel in atTop, ∃ stop',
      (production.outcome items (callee fuel) fuel start).ComesTo result stop' ∧
      (result.isSome = true → stop' = stop) :=
  h.mono fun _ h => firstOutcome_leaky (h start)

end Branches

end

/-! ## Rules -/

section

variable [DecidableEq K] {grammar : Grammar K V T F} {items : Nat → Except E (Option T)} {key : K}
  {pos start stop stop' : Nat}

theorem eventually_of_pred {P : Nat → Prop} (h : ∀ᶠ n in atTop, P (n + 1)) :
    ∀ᶠ n in atTop, P n := by
  obtain ⟨n, hn⟩ := eventually_atTop.1 h
  refine eventually_atTop.2 ⟨n + 1, fun m hm => ?_⟩
  obtain ⟨m, rfl⟩ := Nat.exists_eq_succ_of_ne_zero (show m ≠ 0 by omega)
  exact hn m (by omega)

/-- A rule that is not grown matches as its branches do. -/
theorem matches_of_branches {result : Option (V key)} (hplain : grammar.strategy key ≠ .grown)
    (hleaky : (grammar.production key).leaky = false)
    (h : Branches.Match items (evaluate grammar items) (grammar.production key).branches pos
      result stop) :
    Matches (evaluate grammar items) key pos result stop := by
  refine eventually_of_pred (h.mono fun fuel h => ?_)
  rw [evaluate, if_neg hplain, Production.outcome, hleaky]
  exact h pos

/-- The way to call rules inside a rule that is grown from a seed. -/
def seededWith (grammar : Grammar K V T F) (items : Nat → Except E (Option T)) (key : K)
    (start : Nat)
    (seed : Memo (V key)) (fuel : Nat) (other : K) (pos : Nat) : Outcome F E (Option (V other)) :=
  seeded key start seed (evaluate grammar items fuel) other pos

theorem matches_seed (seed : Memo (V key)) :
    Matches (seededWith grammar items key start seed) key start seed.result seed.stop := by
  refine .of_forall fun fuel => ?_
  rw [seededWith, seeded, dif_pos ⟨rfl, rfl⟩]
  exact comesTo_here _ _

theorem matches_unseeded {seed : Memo (V key)} {other : K} {result : Option (V other)}
    (hother : key = other → start ≠ pos)
    (h : Matches (evaluate grammar items) other pos result stop) :
    Matches (seededWith grammar items key start seed) other pos result stop := by
  refine h.mono fun fuel h => ?_
  rw [seededWith, seeded, dif_neg fun hseed => hother hseed.1 hseed.2]
  exact h

/-- A grown rule that has come to `best` comes to this in the end. -/
def Grows (grammar : Grammar K V T F) (items : Nat → Except E (Option T)) (key : K) (start : Nat)
    (best : Memo (V key)) (result : Option (V key)) (stop : Nat) : Prop :=
  ∃ steps, ∀ᶠ fuel in atTop, ∀ rounds ≥ steps,
    (grownFrom (fun seed => (grammar.production key).outcome items
      (seededWith grammar items key start seed fuel) fuel start) start rounds best).ComesTo result
        stop

variable {best : Memo (V key)} {result : Option (V key)}

/-- A grown rule is done when its branches get no farther. -/
theorem grows_done (h : Branches.Match items (seededWith grammar items key start best)
      (grammar.production key).branches start result stop)
    (hstop : result.isSome = true → stop ≤ best.stop) :
    Grows grammar items key start best best.result best.stop := by
  refine ⟨1, h.outcome.mono fun fuel h rounds hrounds => ?_⟩
  obtain ⟨rounds, rfl⟩ := Nat.exists_eq_succ_of_ne_zero (show rounds ≠ 0 by omega)
  obtain ⟨stop', hround, hsome⟩ := h
  rw [grownFrom]
  refine hround.andThen ?_
  rw [if_neg fun hmore => absurd (hsome hmore.1 ▸ hstop hmore.1) (Nat.not_le_of_lt hmore.2)]
  exact comesTo_here _ _

/-- A grown rule goes on when its branches get farther. -/
theorem grows_step {a : V key} (h : Branches.Match items (seededWith grammar items key start best)
      (grammar.production key).branches start (some a) stop)
    (hstop : best.stop < stop)
    (hgrows : Grows grammar items key start { result := some a, stop } result stop') :
    Grows grammar items key start best result stop' := by
  obtain ⟨steps, hgrows⟩ := hgrows
  refine ⟨steps + 1, ?_⟩
  filter_upwards [h.outcome, hgrows] with fuel h hgrows rounds hrounds
  obtain ⟨rounds, rfl⟩ := Nat.exists_eq_succ_of_ne_zero (show rounds ≠ 0 by omega)
  obtain ⟨mid, hround, hsome⟩ := h
  obtain rfl : mid = stop := hsome rfl
  rw [grownFrom]
  refine hround.andThen ?_
  rw [if_pos ⟨rfl, hstop⟩]
  exact hgrows rounds (by omega)

theorem matches_of_grows (hgrown : grammar.strategy key = .grown)
    (h : Grows grammar items key pos { result := none, stop := pos } result stop) :
    Matches (evaluate grammar items) key pos result stop := by
  obtain ⟨steps, h⟩ := h
  refine eventually_of_pred ?_
  filter_upwards [h, eventually_ge_atTop steps] with fuel h hfuel
  rw [evaluate, if_pos hgrown]
  exact h fuel hfuel

end

end OpticScript.Packrat
