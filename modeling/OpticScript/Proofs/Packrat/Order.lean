import Mathlib.Order.Nat
import OpticScript.Proofs.Packrat.Evaluation

/-!
# The order of the rules

A rule is directly left recursive if it calls itself where it begins, and nothing else
that it calls there can lead back to it. For a grammar in which every left recursive rule
is of that kind the rules have a rank (`Grammar.Ranking`) : before a branch has taken an
item it calls only rules of a lower rank, or the rule that it belongs to, provided that
this one is grown. A rule may promise to take an item whenever it matches; what comes
after it then comes later.

In a ranked grammar the position after a rule is not before it, and every item between
has been looked at (`Ranking.evaluate_advances`).
-/

set_option linter.unusedSectionVars false

namespace OpticScript.Packrat

variable {K : Type} [DecidableEq K] {V : K → Type} {T F E α β : Type}

/-! ## Ranked branches -/

/-- What a branch of `key` may call when it has taken an item (`moved`) or has not. -/
def Grammar.MayCall (grammar : Grammar K V T F) (rank : K → Nat) (key : K) (moved : Bool)
    (other : K) : Prop :=
  moved = true ∨ rank other < rank key ∨ other = key ∧ grammar.strategy key = .grown

/-- Where a branch has not moved, only what may come first is called. -/
theorem Grammar.MayCall.lt_or {grammar : Grammar K V T F} {rank : K → Nat} {key other : K}
    {moved : Bool} {start pos : Nat} (h : grammar.MayCall rank key moved other)
    (hmoved : moved = true → start < pos) : start < pos ∨ grammar.MayCall rank key false other :=
  h.imp hmoved Or.inr

/-- A branch of `key` calls only what it may, and it has taken an item at its end if `key`
promises that; of a grown rule the engine sees to it. -/
def Branch.Ranked (grammar : Grammar K V T F) (rank : K → Nat) (consumes : K → Bool) (key : K) :
    Branch K V T F α → Bool → Prop
  | done _, moved => consumes key = true → moved = true ∨ grammar.strategy key = .grown
  | fail, _ => True
  | raise _, _ => True
  | take _ next, _ => ∀ item, (next item).Ranked grammar rank consumes key true
  | look next, moved => ∀ item, (next item).Ranked grammar rank consumes key moved
  | call other next, moved =>
    grammar.MayCall rank key moved other ∧
      ∀ result, (next result).Ranked grammar rank consumes key (moved || consumes other)
  | maybe other _ next, moved =>
    grammar.MayCall rank key moved other ∧ (next none).Ranked grammar rank consumes key moved ∧
      ∀ result, (next (some result)).Ranked grammar rank consumes key (moved || consumes other)
  | star other next, moved =>
    grammar.MayCall rank key moved other ∧
      ∀ results, (next results).Ranked grammar rank consumes key moved

@[simp] theorem Branch.ranked_require_bind {grammar : Grammar K V T F} {rank : K → Nat}
    {consumes : K → Bool} {key : K} {condition : Bool} {next : Unit → Branch K V T F α}
    {moved : Bool} : ((require condition).bind next).Ranked grammar rank consumes key moved ↔
      (condition = true → (next ()).Ranked grammar rank consumes key moved) := by
  cases condition <;> simp [require, Branch.bind, Ranked]

@[simp] theorem Branch.ranked_ofOption_bind {grammar : Grammar K V T F} {rank : K → Nat}
    {consumes : K → Bool} {key : K} {value : Option β} {next : β → Branch K V T F α}
    {moved : Bool} : ((ofOption value).bind next).Ranked grammar rank consumes key moved ↔
      ∀ b, value = some b → (next b).Ranked grammar rank consumes key moved := by
  cases value <;> simp [ofOption, Branch.bind, Ranked]

/-- A rank of every rule, and the rules that take an item whenever they match. -/
structure Grammar.Ranking (grammar : Grammar K V T F) where
  rank : K → Nat
  consumes : K → Bool
  ranked : ∀ key, ∀ branch ∈ (grammar.production key).branches,
    branch.Ranked grammar rank consumes key false

/-! ## Positions -/

namespace Outcome

/-- The outcome of a part that begins at `pos` : the position after it is not before `pos`,
and the items before that position have been looked at. -/
structure Within (pos : Nat) (o : Outcome F E α) : Prop where
  le_stop : pos ≤ o.stop
  stop_le : o.stop ≤ o.reach

theorem Within.mono {o : Outcome F E α} {pos pos' : Nat} (h : o.Within pos') (hp : pos ≤ pos') :
    o.Within pos :=
  ⟨hp.trans h.le_stop, h.stop_le⟩

theorem within_here (a : α) {pos stop : Nat} (h : pos ≤ stop) :
    (here a stop : Outcome F E α).Within pos :=
  ⟨h, le_rfl⟩

theorem within_fail (fault : Fault F E) (pos : Nat) :
    (fail fault pos : Outcome F E α).Within pos :=
  ⟨le_rfl, le_rfl⟩

theorem Within.andThen {o : Outcome F E α} {next : α → Nat → Outcome F E β} {pos : Nat}
    (h : o.Within pos) (hn : ∀ a, o.answer = .ok a → (next a o.stop).Within pos) :
    (o.andThen next).Within pos := by
  cases ha : o.answer with
  | error fault =>
    rw [andThen_error ha]
    exact ⟨h.le_stop, h.stop_le⟩
  | ok a =>
    rw [andThen_ok ha]
    exact ⟨(hn a ha).le_stop, (hn a ha).stop_le.trans (Nat.le_max_right _ _)⟩

/-- Every answer comes with a property of it and of the position after it. -/
def Ensures (o : Outcome F E α) (P : α → Nat → Prop) : Prop := ∀ a, o.answer = .ok a → P a o.stop

theorem Ensures.imp {o : Outcome F E α} {P Q : α → Nat → Prop} (h : o.Ensures P)
    (hPQ : ∀ a stop, P a stop → Q a stop) : o.Ensures Q :=
  fun a ha => hPQ a o.stop (h a ha)

@[simp] theorem ensures_here {a : α} {pos : Nat} {P : α → Nat → Prop} :
    (here a pos : Outcome F E α).Ensures P ↔ P a pos := by
  simp [Ensures, here]

@[simp] theorem ensures_fail {fault : Fault F E} {pos : Nat} {P : α → Nat → Prop} :
    (fail fault pos : Outcome F E α).Ensures P := by
  simp [Ensures, fail]

theorem ensures_andThen {o : Outcome F E α} {next : α → Nat → Outcome F E β}
    {P : β → Nat → Prop} :
    (o.andThen next).Ensures P ↔ o.Ensures fun a stop => (next a stop).Ensures P := by
  cases ha : o.answer with
  | error fault => simp [andThen_error ha, Ensures, ha]
  | ok a => simp [andThen_ok ha, Ensures, ha]

theorem Within.thenMatch {o : Outcome F E (Option α)} {next : α → Nat → Outcome F E (Option β)}
    {pos : Nat} (h : o.Within pos) (hn : ∀ a stop, pos ≤ stop → (next a stop).Within stop) :
    (o.thenMatch next).Within pos := by
  refine h.andThen fun result _ => ?_
  cases result with
  | none => exact within_here none h.le_stop
  | some a => exact (hn a _ h.le_stop).mono h.le_stop

theorem ensures_thenMatch {o : Outcome F E (Option α)} {next : α → Nat → Outcome F E (Option β)}
    {P : Option β → Nat → Prop} :
    (o.thenMatch next).Ensures P ↔ o.Ensures fun result stop =>
      match result with
      | none => P none stop
      | some a => (next a stop).Ensures P := by
  rw [thenMatch, ensures_andThen]
  refine forall_congr' fun result => imp_congr_right fun _ => ?_
  cases result with
  | none => exact ensures_here
  | some a => exact Iff.rfl

/-- The outcome of a rule at `pos`. If the rule promises to take an item, a match does. -/
structure Advances (consumes : Bool) (pos : Nat) (o : Outcome F E (Option α)) : Prop
    extends o.Within pos where
  lt_stop : consumes = true → o.Ensures fun result stop => result.isSome = true → pos < stop

theorem Advances.ensures {o : Outcome F E (Option α)} {consumes : Bool} {pos : Nat}
    (h : o.Advances consumes pos) : o.Ensures fun result stop =>
      pos ≤ stop ∧ (consumes = true → result.isSome = true → pos < stop) :=
  fun result hr => ⟨h.le_stop, fun hc hs => h.lt_stop hc result hr hs⟩

/-- A match is behind the start of a branch if the branch has moved before it, or if it is one of a
rule that takes an item. -/
theorem lt_stop_of_moved {consumes moved : Bool} {start pos stop : Nat} (hpos : start ≤ pos)
    (hle : pos ≤ stop) (hmoved : moved = true → start < pos) (hlt : consumes = true → pos < stop)
    (h : (moved || consumes) = true) : start < stop := by
  rcases Bool.or_eq_true_iff.1 h with h | h
  · exact (hmoved h).trans_le hle
  · exact hpos.trans_lt (hlt h)

end Outcome

open Outcome

theorem lookAt_within (items : Nat → Except E (Option T)) (pos : Nat) :
    (lookAt items pos : Outcome F E (Option T)).Within pos := by
  unfold lookAt
  split <;> exact ⟨Nat.le_refl _, Nat.le_succ _⟩

theorem lookAt_ensures (items : Nat → Except E (Option T)) (pos : Nat) :
    (lookAt items pos : Outcome F E (Option T)).Ensures fun item stop =>
      items pos = .ok item ∧ stop = pos := by
  intro item h
  unfold lookAt at h ⊢
  split at h <;> simp_all

theorem takeAt_within (items : Nat → Except E (Option T)) (accept : T → Bool) (pos : Nat) :
    (takeAt items accept pos : Outcome F E (Option T)).Within pos := by
  refine (lookAt_within items pos).thenMatch fun item stop _ => ?_
  split
  · exact ⟨Nat.le_succ _, Nat.le_refl _⟩
  · exact within_here none (Nat.le_refl _)

theorem takeAt_ensures (items : Nat → Except E (Option T)) (accept : T → Bool) (pos : Nat) :
    (takeAt items accept pos : Outcome F E (Option T)).Ensures fun item stop =>
      ∀ t, item = some t → items pos = .ok (some t) ∧ accept t = true ∧ stop = pos + 1 := by
  refine ensures_thenMatch.2 ((lookAt_ensures items pos).imp fun item stop h => ?_)
  obtain ⟨hi, rfl⟩ := h
  cases item with
  | none => simp
  | some t =>
    by_cases ht : accept t = true
    · simp [ht, Ensures, hi]
    · simp [ht]

theorem passesAt_within (items : Nat → Except E (Option T)) (pos : Nat)
    (ahead : Option (T → Bool)) : (passesAt items pos ahead : Outcome F E Bool).Within pos := by
  cases ahead with
  | none => exact within_here true (Nat.le_refl _)
  | some test =>
    exact (lookAt_within items pos).andThen fun item _ =>
      within_here _ (lookAt_within items pos).le_stop

theorem repeated_within {callee : Nat → Outcome F E (Option α)}
    (hcallee : ∀ pos, (callee pos).Within pos) :
    ∀ rounds pos, (repeated callee rounds pos).Within pos
  | 0, pos => within_fail _ pos
  | rounds + 1, pos => by
    refine (hcallee pos).andThen fun result _ => ?_
    have hle := (hcallee pos).le_stop
    cases result with
    | none => exact within_here [] hle
    | some a =>
      dsimp only
      split
      · exact within_here [a] hle
      · have hrest := (repeated_within hcallee rounds (callee pos).stop).mono hle
        exact hrest.andThen fun results _ => within_here _ hrest.le_stop

theorem Branch.outcome_within {items : Nat → Except E (Option T)}
    {callee : (key : K) → Nat → Outcome F E (Option (V key))}
    (hcallee : ∀ key pos, (callee key pos).Within pos) (rounds : Nat)
    (branch : Branch K V T F α) (pos : Nat) :
    (branch.outcome items callee rounds pos).Within pos := by
  induction branch generalizing pos with
  | done result => exact within_here _ (Nat.le_refl _)
  | fail => exact within_here _ (Nat.le_refl _)
  | raise complaint => exact within_fail _ pos
  | take accept next ih =>
    exact (takeAt_within items accept pos).thenMatch fun item stop _ => ih item stop
  | look next ih => exact (lookAt_within items pos).thenMatch fun item stop _ => ih item stop
  | call key next ih => exact (hcallee key pos).thenMatch fun result stop _ => ih result stop
  | maybe key ahead next ih =>
    have hle := (hcallee key pos).le_stop
    rw [Branch.outcome]
    refine (hcallee key pos).andThen fun result _ => ?_
    cases result with
    | none => exact ih none pos
    | some a =>
      have hpass := (passesAt_within (F := F) items (callee key pos).stop ahead).mono hle
      refine hpass.andThen fun passed _ => ?_
      cases passed with
      | true => exact (ih (some a) _).mono hpass.le_stop
      | false => exact ih none pos
  | star key next ih =>
    have hrep := repeated_within (hcallee key) rounds pos
    exact hrep.andThen fun results _ => (ih results _).mono hrep.le_stop

theorem Branch.outcome_ensures_consumes {grammar : Grammar K V T F} {rank : K → Nat}
    {consumes : K → Bool} {key : K} {items : Nat → Except E (Option T)}
    {callee : (key : K) → Nat → Outcome F E (Option (V key))}
    (hcallee : ∀ key pos, (callee key pos).Advances (consumes key) pos) (rounds : Nat)
    {start : Nat} (branch : Branch K V T F α) {moved : Bool}
    (hb : branch.Ranked grammar rank consumes key moved) (pos : Nat) (hpos : start ≤ pos)
    (hmoved : moved = true → start < pos) :
    (branch.outcome items callee rounds pos).Ensures fun result stop =>
      result.isSome = true → consumes key = true →
        grammar.strategy key = .grown ∨ start < stop := by
  have hdone : ∀ stop, (none : Option α).isSome = true → consumes key = true →
      grammar.strategy key = .grown ∨ start < stop := by simp
  induction branch generalizing moved pos with
  | done result => exact ensures_here.2 fun _ hc => (hb hc).symm.imp_right hmoved
  | fail => exact ensures_here.2 (hdone pos)
  | raise complaint => exact ensures_fail
  | take accept next ih =>
    refine ensures_thenMatch.2 ((takeAt_ensures items accept pos).imp fun item stop h => ?_)
    cases item with
    | none => exact hdone stop
    | some t =>
      obtain ⟨-, -, rfl⟩ := h t rfl
      exact ih t (hb t) _ (by omega) fun _ => by omega
  | look next ih =>
    refine ensures_thenMatch.2 ((lookAt_ensures items pos).imp fun item stop h => ?_)
    obtain ⟨-, rfl⟩ := h
    cases item with
    | none => exact hdone stop
    | some t => exact ih t (hb t) stop hpos hmoved
  | call other next ih =>
    refine ensures_thenMatch.2 ((hcallee other pos).ensures.imp fun result stop h => ?_)
    obtain ⟨hle, hlt⟩ := h
    cases result with
    | none => exact hdone stop
    | some a =>
      exact ih a (hb.2 a) stop (hpos.trans hle)
        (lt_stop_of_moved hpos hle hmoved fun hc => hlt hc rfl)
  | maybe other ahead next ih =>
    rw [Branch.outcome, ensures_andThen]
    refine (hcallee other pos).ensures.imp fun result stop h => ?_
    obtain ⟨hle, hlt⟩ := h
    cases result with
    | none => exact ih none hb.2.1 pos hpos hmoved
    | some a =>
      refine ensures_andThen.2 fun passed _ => ?_
      cases passed with
      | true =>
        have hle' := (passesAt_within (F := F) items stop ahead).le_stop
        exact ih (some a) (hb.2.2 a) _ (by omega) (lt_stop_of_moved hpos (hle.trans hle') hmoved
          fun hc => (hlt hc rfl).trans_le hle')
      | false => exact ih none hb.2.1 pos hpos hmoved
  | star other next ih =>
    have hle := (repeated_within (fun pos => (hcallee other pos).toWithin) rounds pos).le_stop
    refine ensures_andThen.2 fun results _ => ih results (hb.2 results) _ (by omega) fun hm => ?_
    have := hmoved hm
    omega

theorem firstOutcome_within {run : β → Nat → Outcome F E (Option α)} {start : Nat}
    (hrun : ∀ branch, (run branch start).Within start) (leaky : Bool) :
    ∀ branches cursor, start ≤ cursor → (firstOutcome run start leaky branches cursor).Within start
  | [], cursor, h => by
    cases leaky with
    | true => exact within_here none h
    | false => exact within_here none (Nat.le_refl start)
  | branch :: branches, _, _ => by
    refine (hrun branch).andThen fun result _ => ?_
    cases result with
    | some a => exact within_here _ (hrun branch).le_stop
    | none => exact firstOutcome_within hrun leaky branches _ (hrun branch).le_stop

theorem firstOutcome_ensures {run : β → Nat → Outcome F E (Option α)} {start : Nat}
    {P : α → Nat → Prop} (leaky : Bool) :
    ∀ branches, (∀ branch ∈ branches, (run branch start).Ensures fun result stop =>
        ∀ a, result = some a → P a stop) →
      ∀ cursor, (firstOutcome run start leaky branches cursor).Ensures fun result stop =>
        ∀ a, result = some a → P a stop
  | [], _, _ => ensures_here.2 (by simp)
  | branch :: branches, h, _ => by
    refine ensures_andThen.2 ((h branch (by simp)).imp fun result stop hr => ?_)
    cases result with
    | some a => exact ensures_here.2 hr
    | none => exact firstOutcome_ensures leaky branches (fun b hb => h b (by simp [hb])) stop

/-- Growing an outcome keeps what holds of the first one, if a round of `body` keeps it. -/
theorem grownFrom_ensures {body : Memo α → Outcome F E (Option α)} {start : Nat}
    {P : Memo α → Prop} (hbody : ∀ best, P best → (body best).Ensures fun result stop =>
      result.isSome = true → best.stop < stop → P { result, stop }) :
    ∀ rounds best, P best → (grownFrom body start rounds best).Ensures fun result stop =>
      P { result, stop }
  | 0, _, _ => ensures_fail
  | rounds + 1, best, hbest => by
    refine ensures_andThen.2 ((hbody best hbest).imp fun result stop hr => ?_)
    split
    · rename_i h
      exact grownFrom_ensures hbody rounds _ (hr h.1 h.2)
    · exact ensures_here.2 hbest

/-- The outcome so far of a grown rule that begins at `start` : a match has taken an item. -/
structure Memo.IsSeed (start : Nat) (memo : Memo α) : Prop where
  le_stop : start ≤ memo.stop
  lt_stop : memo.result.isSome = true → start < memo.stop

theorem Memo.isSeed_failure (start : Nat) :
    ({ result := none, stop := start } : Memo α).IsSeed start :=
  ⟨Nat.le_refl start, by simp⟩

theorem Memo.IsSeed.better {start stop : Nat} {best : Memo α} (h : best.IsSeed start)
    (result : Option α) (hlt : best.stop < stop) :
    ({ result, stop } : Memo α).IsSeed start :=
  ⟨Nat.le_of_lt (Nat.lt_of_le_of_lt h.le_stop hlt), fun _ => Nat.lt_of_le_of_lt h.le_stop hlt⟩

theorem grownFrom_within {body : Memo α → Outcome F E (Option α)} {start : Nat}
    (hbody : ∀ best : Memo α, best.IsSeed start → (body best).Within start) :
    ∀ rounds best, best.IsSeed start → (grownFrom body start rounds best).Within start
  | 0, _, _ => within_fail _ start
  | rounds + 1, best, hbest => by
    refine (hbody best hbest).andThen fun result _ => ?_
    split
    · rename_i h
      exact grownFrom_within hbody rounds _ (hbest.better result h.2)
    · exact within_here _ hbest.le_stop

theorem grownFrom_ensures_isSeed {body : Memo α → Outcome F E (Option α)} {start : Nat}
    (rounds : Nat) {best : Memo α} (hbest : best.IsSeed start) :
    (grownFrom body start rounds best).Ensures fun result stop =>
      ({ result, stop } : Memo α).IsSeed start :=
  grownFrom_ensures (P := Memo.IsSeed start)
    (fun _ hb _ _ _ hlt => hb.better _ hlt) rounds best hbest

theorem seeded_advances {key : K} {start : Nat} {seed : Memo (V key)} (hseed : seed.IsSeed start)
    {callee : (key : K) → Nat → Outcome F E (Option (V key))} {consumes : K → Bool}
    (hcallee : ∀ key pos, (callee key pos).Advances (consumes key) pos) (other : K) (pos : Nat) :
    (seeded key start seed callee other pos).Advances (consumes other) pos := by
  unfold seeded
  split
  · rename_i h
    obtain ⟨rfl, rfl⟩ := h
    exact { toWithin := within_here _ hseed.le_stop
            lt_stop := fun _ => ensures_here.2 hseed.lt_stop }
  · exact hcallee other pos

theorem Production.outcome_within {items : Nat → Except E (Option T)}
    {callee : (key : K) → Nat → Outcome F E (Option (V key))}
    (hcallee : ∀ key pos, (callee key pos).Within pos) (rounds : Nat)
    (production : Production K V T F α) (pos : Nat) :
    (production.outcome items callee rounds pos).Within pos :=
  firstOutcome_within (fun branch => branch.outcome_within hcallee rounds pos) _ _ pos
    (Nat.le_refl pos)

namespace Grammar.Ranking

variable {grammar : Grammar K V T F} (ranking : grammar.Ranking)

theorem production_advances {key : K} {items : Nat → Except E (Option T)}
    {callee : (key : K) → Nat → Outcome F E (Option (V key))}
    (hcallee : ∀ key pos, (callee key pos).Advances (ranking.consumes key) pos) (rounds pos : Nat)
    (hgrown : grammar.strategy key ≠ .grown) :
    ((grammar.production key).outcome items callee rounds pos).Advances
      (ranking.consumes key) pos where
  toWithin := Production.outcome_within (fun key pos => (hcallee key pos).toWithin) rounds _ pos
  lt_stop hc := by
    refine (firstOutcome_ensures (P := fun _ stop => pos < stop) _ _ (fun branch hb => ?_) pos).imp
      fun result stop h hr => ?_
    · refine (branch.outcome_ensures_consumes hcallee rounds (ranking.ranked key branch hb) pos
        (Nat.le_refl pos) (by simp)).imp fun result stop h a ha => ?_
      exact (h (by simp [ha]) hc).resolve_left hgrown
    · obtain ⟨a, rfl⟩ := Option.isSome_iff_exists.1 hr
      exact h a rfl

/-- The position after a rule is not before the rule, the items between have been looked
at, and a match takes an item if the rule promises that. -/
theorem evaluate_advances (items : Nat → Except E (Option T)) (fuel : Nat) (key : K) (pos : Nat) :
    (evaluate grammar items fuel key pos).Advances (ranking.consumes key) pos := by
  induction fuel generalizing key pos with
  | zero => exact { toWithin := within_fail _ pos, lt_stop := fun _ => ensures_fail }
  | succ fuel ih =>
    rw [evaluate]
    split
    · have hseed : Memo.IsSeed pos { result := (none : Option (V key)), stop := pos } :=
        Memo.isSeed_failure pos
      refine { toWithin := grownFrom_within (fun best hbest => ?_) fuel _ hseed, lt_stop := ?_ }
      · exact Production.outcome_within
          (fun other pos => (seeded_advances hbest ih other pos).toWithin) fuel _ pos
      · exact fun _ => (grownFrom_ensures_isSeed fuel hseed).imp fun _ _ h => h.lt_stop
    · rename_i h
      exact ranking.production_advances ih fuel pos h

end Grammar.Ranking

end OpticScript.Packrat
