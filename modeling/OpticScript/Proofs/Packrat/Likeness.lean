import Mathlib.Data.List.Forall2
import OpticScript.Proofs.Packrat.Fuel

/-!
# Two parses that run alike

A `Likeness` relates items, results, complaints and errors of one parse to those of
another. If the branches of two grammars are alike (`Branch.Alike`), and the items of one
parse are like those of the other some places further on, then so are the outcomes of
the rules (`evaluate_alike`). Only the items that are looked at have to be alike.

With equality for a likeness this says that more fuel changes nothing (`evaluate_of_le`),
and that items which are not looked at do not matter (`evaluate_congr`).
-/

set_option linter.unusedSectionVars false

namespace OpticScript.Packrat

/-- A relation between the parts of two parses. -/
structure Likeness (K : Type) (V : K → Type) (T F E : Type) where
  item : T → T → Prop
  result : (key : K) → V key → V key → Prop
  complaint : F → F → Prop
  error : E → E → Prop

variable {K : Type} [DecidableEq K] {V : K → Type} {T F E α α' β β' : Type}

open Outcome

/-- Branches that ask for the same, and whose results are related by `R` at the end. -/
inductive Branch.Alike (like : Likeness K V T F E) (R : α → α' → Prop) :
    Branch K V T F α → Branch K V T F α' → Prop
  | done {a : α} {a' : α'} (h : R a a') : Alike like R (.done a) (.done a')
  | fail : Alike like R .fail .fail
  | raise {c c' : F} (h : like.complaint c c') : Alike like R (.raise c) (.raise c')
  | take {accept accept' : T → Bool} {next : T → Branch K V T F α} {next' : T → Branch K V T F α'}
      (ha : ∀ t t', like.item t t' → accept t = accept' t')
      (hn : ∀ t t', like.item t t' → accept t = true → Alike like R (next t) (next' t')) :
      Alike like R (.take accept next) (.take accept' next')
  | look {next : T → Branch K V T F α} {next' : T → Branch K V T F α'}
      (hn : ∀ t t', like.item t t' → Alike like R (next t) (next' t')) :
      Alike like R (.look next) (.look next')
  | call {key : K} {next : V key → Branch K V T F α} {next' : V key → Branch K V T F α'}
      (hn : ∀ v v', like.result key v v' → Alike like R (next v) (next' v')) :
      Alike like R (.call key next) (.call key next')
  | maybe {key : K} {ahead ahead' : Option (T → Bool)} {next : Option (V key) → Branch K V T F α}
      {next' : Option (V key) → Branch K V T F α'}
      (ha : Option.Rel (fun test test' => ∀ t t', like.item t t' → test t = test' t') ahead ahead')
      (hn : ∀ v v', Option.Rel (like.result key) v v' → Alike like R (next v) (next' v')) :
      Alike like R (.maybe key ahead next) (.maybe key ahead' next')
  | star {key : K} {next : List (V key) → Branch K V T F α}
      {next' : List (V key) → Branch K V T F α'}
      (hn : ∀ v v', List.Forall₂ (like.result key) v v' → Alike like R (next v) (next' v')) :
      Alike like R (.star key next) (.star key next')

section

variable {like : Likeness K V T F E} {R : α → α' → Prop}

@[simp] theorem alike_done_iff {a : α} {a' : α'} :
    (Branch.done a : Branch K V T F α).Alike like R (.done a') ↔ R a a' :=
  ⟨fun h => by cases h; assumption, .done⟩

@[simp] theorem alike_raise_iff {c c' : F} :
    (Branch.raise c : Branch K V T F α).Alike like R (.raise c' : Branch K V T F α') ↔
      like.complaint c c' :=
  ⟨fun h => by cases h; assumption, .raise⟩

@[simp] theorem alike_take_iff {accept accept' : T → Bool} {next : T → Branch K V T F α}
    {next' : T → Branch K V T F α'} :
    (Branch.take accept next).Alike like R (.take accept' next') ↔
      (∀ t t', like.item t t' → accept t = accept' t') ∧
        ∀ t t', like.item t t' → accept t = true → (next t).Alike like R (next' t') :=
  ⟨fun h => by cases h; exact ⟨by assumption, by assumption⟩, fun h => .take h.1 h.2⟩

@[simp] theorem alike_look_iff {next : T → Branch K V T F α} {next' : T → Branch K V T F α'} :
    (Branch.look next).Alike like R (.look next') ↔
      ∀ t t', like.item t t' → (next t).Alike like R (next' t') :=
  ⟨fun h => by cases h; assumption, .look⟩

@[simp] theorem alike_call_iff {key : K} {next : V key → Branch K V T F α}
    {next' : V key → Branch K V T F α'} :
    (Branch.call key next).Alike like R (.call key next') ↔
      ∀ v v', like.result key v v' → (next v).Alike like R (next' v') :=
  ⟨fun h => by cases h; assumption, .call⟩

@[simp] theorem alike_maybe_iff {key : K} {ahead ahead' : Option (T → Bool)}
    {next : Option (V key) → Branch K V T F α} {next' : Option (V key) → Branch K V T F α'} :
    (Branch.maybe key ahead next).Alike like R (.maybe key ahead' next') ↔
      Option.Rel (fun test test' => ∀ t t', like.item t t' → test t = test' t') ahead ahead' ∧
        (next none).Alike like R (next' none) ∧
          ∀ v v', like.result key v v' → (next (some v)).Alike like R (next' (some v')) := by
  constructor
  · intro h
    cases h with
    | maybe ha hn => exact ⟨ha, hn _ _ .none, fun v v' hv => hn _ _ (.some hv)⟩
  · rintro ⟨ha, hnone, hsome⟩
    refine .maybe ha fun v v' hv => ?_
    cases hv with
    | none => exact hnone
    | some hv => exact hsome _ _ hv

@[simp] theorem alike_star_iff {key : K} {next : List (V key) → Branch K V T F α}
    {next' : List (V key) → Branch K V T F α'} :
    (Branch.star key next).Alike like R (.star key next') ↔
      ∀ vs vs', List.Forall₂ (like.result key) vs vs' → (next vs).Alike like R (next' vs') :=
  ⟨fun h => by cases h; assumption, .star⟩

theorem alike_require_bind {condition condition' : Bool} {next : Unit → Branch K V T F α}
    {next' : Unit → Branch K V T F α'} (hc : condition' = condition)
    (hn : condition = true → (next ()).Alike like R (next' ())) :
    ((Branch.require condition).bind next).Alike like R
      ((Branch.require condition').bind next') := by
  subst hc
  cases condition' with
  | false => exact .fail
  | true => exact hn rfl

theorem alike_ofOption_bind {value value' : Option β} {next : β → Branch K V T F α}
    {next' : β → Branch K V T F α'} (hv : value' = value)
    (hn : ∀ b, value = some b → (next b).Alike like R (next' b)) :
    ((Branch.ofOption value).bind next).Alike like R
      ((Branch.ofOption value').bind next') := by
  subst hv
  cases value' with
  | none => exact .fail
  | some b => exact hn b rfl

end

/-- Rules with branches that are alike, and that are grown alike. -/
structure Grammar.Alike (like : Likeness K V T F E)
    (grammar grammar' : Grammar K V T F) : Prop where
  branches : ∀ key, List.Forall₂ (Branch.Alike like (like.result key))
    (grammar.production key).branches (grammar'.production key).branches
  leaky : ∀ key, (grammar.production key).leaky = (grammar'.production key).leaky
  grown : ∀ key, grammar.strategy key = .grown ↔ grammar'.strategy key = .grown

namespace Likeness

/-- Answers that are alike; running out of fuel is like nothing. -/
def Answers (like : Likeness K V T F E) (R : α → α' → Prop) :
    Except (Fault F E) α → Except (Fault F E) α' → Prop
  | .ok a, .ok a' => R a a'
  | .error (.item e), .error (.item e') => like.error e e'
  | .error (.complaint c), .error (.complaint c') => like.complaint c c'
  | _, _ => False

/-- Items that are alike, or errors in their place. -/
def Items (like : Likeness K V T F E) : Except E (Option T) → Except E (Option T) → Prop
  | .ok t, .ok t' => Option.Rel like.item t t'
  | .error e, .error e' => like.error e e'
  | _, _ => False

/-- Outcomes that are alike, the second one `shift` places further on, unless the first one
has run out of fuel or has looked at more than `bound` items. -/
def Outcomes (like : Likeness K V T F E) (shift bound : Nat) (R : α → α' → Prop)
    (o : Outcome F E α) (o' : Outcome F E α') : Prop :=
  bound < o.reach ∨ ¬o.Finishes ∨
    like.Answers R o.answer o'.answer ∧ o'.stop = o.stop + shift ∧ o'.reach = o.reach + shift

/-- Memos that are alike, the second one `shift` places further on. -/
structure Memos (like : Likeness K V T F E) (shift : Nat) (R : α → α' → Prop)
    (memo : Memo α) (memo' : Memo α') : Prop where
  result : Option.Rel R memo.result memo'.result
  stop : memo'.stop = memo.stop + shift

variable {like : Likeness K V T F E} {shift bound : Nat}

theorem outcomes_here {R : α → α' → Prop} {a : α} {a' : α'} (h : R a a') (pos : Nat) :
    like.Outcomes shift bound R (here a pos) (here a' (pos + shift)) :=
  Or.inr (Or.inr ⟨h, rfl, rfl⟩)

theorem Outcomes.andThen_of_answer {R : α → α' → Prop} {Q : β → β' → Prop} {o : Outcome F E α}
    {o' : Outcome F E α'} {next : α → Nat → Outcome F E β}
    {next' : α' → Nat → Outcome F E β'} (h : like.Outcomes shift bound R o o')
    (hn : ∀ a a', o.answer = .ok a → R a a' →
      like.Outcomes shift bound Q (next a o.stop) (next' a' (o.stop + shift))) :
    like.Outcomes shift bound Q (o.andThen next) (o'.andThen next') := by
  rcases h with h | h | ⟨h, hs, hr⟩
  · exact Or.inl (h.trans_le (reach_le_andThen o next))
  · obtain hf : o.answer = .error .outOfFuel := by simpa [Finishes] using h
    exact Or.inr (Or.inl (by simp [andThen_error hf, Finishes]))
  · cases ha : o.answer with
    | error fault =>
      refine Or.inr (Or.inr ?_)
      rw [ha] at h
      cases ha' : o'.answer with
      | error fault' =>
        rw [ha'] at h
        rw [andThen_error ha, andThen_error ha']
        refine ⟨?_, hs, hr⟩
        cases fault <;> cases fault' <;> exact h
      | ok a' =>
        rw [ha'] at h
        cases fault <;> exact h.elim
    | ok a =>
      rw [ha] at h
      cases ha' : o'.answer with
      | error fault' =>
        rw [ha'] at h
        exact h.elim
      | ok a' =>
        rw [ha'] at h
        rw [andThen_ok ha, andThen_ok ha', hs]
        rcases hn a a' ha h with hb | hf | ⟨hq, hs', hr'⟩
        · exact Or.inl (hb.trans_le (Nat.le_max_right _ _))
        · exact Or.inr (Or.inl hf)
        · exact Or.inr (Or.inr ⟨hq, hs', by dsimp only; omega⟩)

theorem Outcomes.andThen {R : α → α' → Prop} {Q : β → β' → Prop} {o : Outcome F E α}
    {o' : Outcome F E α'} {next : α → Nat → Outcome F E β}
    {next' : α' → Nat → Outcome F E β'} (h : like.Outcomes shift bound R o o')
    (hn : ∀ a a', R a a' →
      like.Outcomes shift bound Q (next a o.stop) (next' a' (o.stop + shift))) :
    like.Outcomes shift bound Q (o.andThen next) (o'.andThen next') :=
  h.andThen_of_answer fun a a' _ => hn a a'

theorem Outcomes.thenMatch {R : α → α' → Prop} {Q : β → β' → Prop}
    {o : Outcome F E (Option α)} {o' : Outcome F E (Option α')}
    {next : α → Nat → Outcome F E (Option β)}
    {next' : α' → Nat → Outcome F E (Option β')}
    (h : like.Outcomes shift bound (Option.Rel R) o o')
    (hn : ∀ a a' stop, R a a' →
      like.Outcomes shift bound (Option.Rel Q) (next a stop) (next' a' (stop + shift))) :
    like.Outcomes shift bound (Option.Rel Q) (o.thenMatch next) (o'.thenMatch next') := by
  refine h.andThen fun result result' hr => ?_
  cases hr with
  | none => exact outcomes_here .none _
  | some hr => exact hn _ _ _ hr

end Likeness

open Likeness

section

variable {like : Likeness K V T F E} {shift bound : Nat} {items items' : Nat → Except E (Option T)}

theorem lookAt_alike (hitems : ∀ i, i < bound → like.Items (items i) (items' (i + shift)))
    (pos : Nat) : like.Outcomes shift bound (Option.Rel like.item) (lookAt items pos)
      (lookAt items' (pos + shift) : Outcome F E (Option T)) := by
  rcases Nat.lt_or_ge pos bound with hp | hp
  · have h := hitems pos hp
    refine Or.inr (Or.inr ?_)
    unfold lookAt
    cases hi : items pos <;> cases hi' : items' (pos + shift) <;> rw [hi, hi'] at h <;>
      first | exact h.elim | exact ⟨h, rfl, Nat.add_right_comm pos shift 1⟩
  · refine Or.inl ?_
    unfold lookAt
    split <;> exact Nat.lt_succ_of_le hp

theorem takeAt_alike (hitems : ∀ i, i < bound → like.Items (items i) (items' (i + shift)))
    {accept accept' : T → Bool} (ha : ∀ t t', like.item t t' → accept t = accept' t') (pos : Nat) :
    like.Outcomes shift bound
      (Option.Rel fun t t' => like.item t t' ∧ accept t = true)
      (takeAt items accept pos)
      (takeAt items' accept' (pos + shift) : Outcome F E (Option T)) := by
  refine (lookAt_alike hitems pos).thenMatch fun t t' stop ht => ?_
  rw [← ha t t' ht]
  split
  · rename_i hacc
    exact Or.inr (Or.inr ⟨.some ⟨ht, hacc⟩, Nat.add_right_comm stop shift 1,
      Nat.add_right_comm stop shift 1⟩)
  · exact outcomes_here .none stop

theorem passesAt_alike (hitems : ∀ i, i < bound → like.Items (items i) (items' (i + shift)))
    {ahead ahead' : Option (T → Bool)}
    (ha : Option.Rel (fun test test' => ∀ t t', like.item t t' → test t = test' t') ahead ahead')
    (pos : Nat) : like.Outcomes shift bound Eq (passesAt items pos ahead)
      (passesAt items' (pos + shift) ahead' : Outcome F E Bool) := by
  cases ha with
  | none => exact outcomes_here rfl pos
  | some ha =>
    refine (lookAt_alike hitems pos).andThen fun item item' hi => outcomes_here ?_ _
    cases hi with
    | none => rfl
    | some hi => exact ha _ _ hi

theorem repeated_alike {R : α → α' → Prop} {callee : Nat → Outcome F E (Option α)}
    {callee' : Nat → Outcome F E (Option α')}
    (hcallee : ∀ pos, like.Outcomes shift bound (Option.Rel R) (callee pos)
      (callee' (pos + shift))) :
    ∀ {rounds rounds' : Nat}, rounds ≤ rounds' → ∀ pos,
      like.Outcomes shift bound (List.Forall₂ R) (repeated callee rounds pos)
        (repeated callee' rounds' (pos + shift))
  | 0, _, _, pos => Or.inr (Or.inl (by simp [repeated, Finishes, Outcome.fail]))
  | rounds + 1, 0, h, _ => absurd h (by omega)
  | rounds + 1, rounds' + 1, h, pos => by
    refine (hcallee pos).andThen fun result result' hr => ?_
    cases hr with
    | none => exact outcomes_here .nil _
    | some hr =>
      by_cases hs : (callee pos).stop = pos
      · simp only [hs, if_true]
        exact outcomes_here (.cons hr .nil) pos
      · have hs' : (callee pos).stop + shift ≠ pos + shift := by omega
        simp only [hs, hs', if_false]
        exact (repeated_alike hcallee (Nat.le_of_succ_le_succ h) _).andThen
          fun results results' hrs => outcomes_here (.cons hr hrs) _

theorem Branch.outcome_alike {R : α → α' → Prop}
    (hitems : ∀ i, i < bound → like.Items (items i) (items' (i + shift)))
    {callee callee' : (key : K) → Nat → Outcome F E (Option (V key))}
    (hcallee : ∀ key pos, like.Outcomes shift bound (Option.Rel (like.result key))
      (callee key pos) (callee' key (pos + shift))) {rounds rounds' : Nat}
    (hrounds : rounds ≤ rounds') {branch : Branch K V T F α} {branch' : Branch K V T F α'}
    (h : branch.Alike like R branch') (pos : Nat) :
    like.Outcomes shift bound (Option.Rel R) (branch.outcome items callee rounds pos)
      (branch'.outcome items' callee' rounds' (pos + shift)) := by
  induction h generalizing pos with
  | done h => exact outcomes_here (.some h) pos
  | fail => exact outcomes_here .none pos
  | raise h => exact Or.inr (Or.inr ⟨h, rfl, rfl⟩)
  | take ha _ ih =>
    exact (takeAt_alike hitems ha pos).thenMatch fun t t' stop ht => ih t t' ht.1 ht.2 stop
  | look _ ih => exact (lookAt_alike hitems pos).thenMatch fun t t' stop ht => ih t t' ht stop
  | call _ ih => exact (hcallee _ pos).thenMatch fun v v' stop hv => ih v v' hv stop
  | maybe ha _ ih =>
    rw [Branch.outcome, Branch.outcome]
    refine (hcallee _ pos).andThen fun result result' hr => ?_
    cases hr with
    | none => exact ih none none .none pos
    | some hr =>
      refine (passesAt_alike hitems ha _).andThen fun passed passed' hp => ?_
      subst hp
      cases passed with
      | true => exact ih _ _ (.some hr) _
      | false => exact ih none none .none pos
  | star _ ih =>
    exact (repeated_alike (hcallee _) hrounds pos).andThen fun v v' hv => ih v v' hv _

theorem firstOutcome_alike {B B' : Type} {R : α → α' → Prop} {Q : B → B' → Prop}
    {run : B → Nat → Outcome F E (Option α)} {run' : B' → Nat → Outcome F E (Option α')}
    {start : Nat}
    (hrun : ∀ b b', Q b b' →
      like.Outcomes shift bound (Option.Rel R) (run b start) (run' b' (start + shift)))
    (leaky : Bool) {branches : List B} {branches' : List B'}
    (h : List.Forall₂ Q branches branches') (cursor : Nat) :
    like.Outcomes shift bound (Option.Rel R) (firstOutcome run start leaky branches cursor)
      (firstOutcome run' (start + shift) leaky branches' (cursor + shift)) := by
  induction h generalizing cursor with
  | nil =>
    cases leaky with
    | true => exact outcomes_here .none cursor
    | false => exact outcomes_here .none start
  | cons hb _ ih =>
    refine (hrun _ _ hb).andThen fun result result' hr => ?_
    cases hr with
    | none => exact ih _
    | some hr => exact outcomes_here (.some hr) _

theorem grownFrom_alike {R : α → α' → Prop} {body : Memo α → Outcome F E (Option α)}
    {body' : Memo α' → Outcome F E (Option α')} {start : Nat}
    (hbody : ∀ best best', like.Memos shift R best best' →
      like.Outcomes shift bound (Option.Rel R) (body best) (body' best')) :
    ∀ {rounds rounds' : Nat}, rounds ≤ rounds' → ∀ {best best'}, like.Memos shift R best best' →
      like.Outcomes shift bound (Option.Rel R) (grownFrom body start rounds best)
        (grownFrom body' (start + shift) rounds' best')
  | 0, _, _, _, _, _ => Or.inr (Or.inl (by simp [grownFrom, Finishes, Outcome.fail]))
  | rounds + 1, 0, h, _, _, _ => absurd h (by omega)
  | rounds + 1, rounds' + 1, h, best, best', hbest => by
    refine (hbody best best' hbest).andThen fun result result' hr => ?_
    have hsome : result'.isSome = result.isSome := by cases hr <;> rfl
    by_cases hlt : result.isSome = true ∧ best.stop < (body best).stop
    · have hlt' : result'.isSome = true ∧ best'.stop < (body best).stop + shift := by
        rw [hsome, hbest.stop]
        exact ⟨hlt.1, by omega⟩
      rw [if_pos hlt, if_pos hlt']
      exact grownFrom_alike hbody (Nat.le_of_succ_le_succ h) ⟨hr, rfl⟩
    · have hlt' : ¬(result'.isSome = true ∧ best'.stop < (body best).stop + shift) := by
        rw [hsome, hbest.stop]
        exact fun h => hlt ⟨h.1, by omega⟩
      rw [if_neg hlt, if_neg hlt', hbest.stop]
      exact outcomes_here hbest.result _

theorem seeded_alike {key : K} {start : Nat} {seed seed' : Memo (V key)}
    (hseed : like.Memos shift (like.result key) seed seed')
    {callee callee' : (key : K) → Nat → Outcome F E (Option (V key))}
    (hcallee : ∀ key pos, like.Outcomes shift bound (Option.Rel (like.result key))
      (callee key pos) (callee' key (pos + shift))) (other : K) (pos : Nat) :
    like.Outcomes shift bound (Option.Rel (like.result other))
      (seeded key start seed callee other pos)
      (seeded key (start + shift) seed' callee' other (pos + shift)) := by
  unfold seeded
  by_cases h : key = other ∧ start = pos
  · obtain ⟨rfl, rfl⟩ := h
    simp only [and_self, dite_true, hseed.stop]
    exact outcomes_here hseed.result _
  · have h' : ¬(key = other ∧ start + shift = pos + shift) := fun he => h ⟨he.1, by omega⟩
    simp only [h, h', dite_false]
    exact hcallee other pos

/-- Rules of grammars that are alike come to outcomes that are alike. -/
theorem evaluate_alike {grammar grammar' : Grammar K V T F} (hg : grammar.Alike like grammar')
    (hitems : ∀ i, i < bound → like.Items (items i) (items' (i + shift))) {fuel fuel' : Nat}
    (hfuel : fuel ≤ fuel') (key : K) (pos : Nat) :
    like.Outcomes shift bound (Option.Rel (like.result key))
      (evaluate grammar items fuel key pos) (evaluate grammar' items' fuel' key (pos + shift)) := by
  induction fuel generalizing fuel' key pos with
  | zero => exact Or.inr (Or.inl (by simp [evaluate, Finishes, Outcome.fail]))
  | succ fuel ih =>
    obtain ⟨fuel', rfl⟩ : ∃ n, fuel' = n + 1 := ⟨fuel' - 1, by omega⟩
    have hle : fuel ≤ fuel' := Nat.le_of_succ_le_succ hfuel
    rw [evaluate, evaluate]
    by_cases hgrown : grammar.strategy key = .grown
    · rw [if_pos hgrown, if_pos ((hg.grown key).1 hgrown)]
      refine grownFrom_alike (fun best best' hbest => ?_) hle ⟨.none, rfl⟩
      rw [Production.outcome, Production.outcome, ← hg.leaky key]
      exact firstOutcome_alike (fun b b' hb => Branch.outcome_alike hitems
        (seeded_alike hbest (ih hle)) hle hb pos) _ (hg.branches key) pos
    · rw [if_neg hgrown, if_neg (mt (hg.grown key).2 hgrown)]
      rw [Production.outcome, Production.outcome, ← hg.leaky key]
      exact firstOutcome_alike (fun b b' hb => Branch.outcome_alike hitems (ih hle) hle hb pos) _
        (hg.branches key) pos

end

/-! ## Equal parses -/

/-- What is equal is alike. -/
def Likeness.equality : Likeness K V T F E :=
  { item := Eq, result := fun _ => Eq, complaint := Eq, error := Eq }

theorem Branch.alike_refl (branch : Branch K V T F α) :
    branch.Alike (Likeness.equality : Likeness K V T F E) Eq branch := by
  induction branch with
  | done a => exact .done rfl
  | fail => exact .fail
  | raise c => exact .raise rfl
  | take accept next ih => exact .take (by rintro t _ rfl; rfl) (by rintro t _ rfl _; exact ih t)
  | look next ih => exact .look (by rintro t _ rfl; exact ih t)
  | call key next ih => exact .call (by rintro v _ rfl; exact ih v)
  | maybe key ahead next ih =>
    refine .maybe ?_ fun v v' h => ?_
    · cases ahead with
      | none => exact .none
      | some test => exact .some (by rintro t _ rfl; rfl)
    · obtain rfl : v = v' := by cases h <;> simp_all [Likeness.equality]
      exact ih v
  | star key next ih =>
    refine .star fun v v' h => ?_
    obtain rfl : v = v' := List.forall₂_eq_eq_eq ▸ h
    exact ih v

/-- Grammars with the same branches that grow the same rules are alike. -/
theorem Grammar.alike_of_production_eq {grammar grammar' : Grammar K V T F}
    (hp : ∀ key, grammar.production key = grammar'.production key)
    (hg : ∀ key, grammar.strategy key = .grown ↔ grammar'.strategy key = .grown) :
    grammar.Alike (Likeness.equality : Likeness K V T F E) grammar' where
  branches key := by
    rw [← hp key]
    exact List.forall₂_same.2 fun branch _ => branch.alike_refl
  leaky key := by rw [hp key]
  grown := hg

theorem Likeness.Outcomes.eq {bound : Nat} {o o' : Outcome F E (Option α)}
    (h : (Likeness.equality : Likeness K V T F E).Outcomes 0 bound (Option.Rel Eq) o o')
    (hb : o.reach ≤ bound) (hf : o.Finishes) : o' = o := by
  rcases h with h | h | ⟨h, hs, hr⟩
  · exact absurd h (Nat.not_lt.2 hb)
  · exact absurd hf h
  · obtain ⟨answer, stop, reach⟩ := o
    obtain ⟨answer', stop', reach'⟩ := o'
    obtain rfl : answer' = answer := by
      cases answer with
      | error fault =>
        cases answer' with
        | error fault' => cases fault <;> cases fault' <;> simp_all [Answers, Likeness.equality]
        | ok a' => cases fault <;> exact h.elim
      | ok a =>
        cases answer' with
        | error fault' => exact h.elim
        | ok a' =>
          rw [Answers] at h
          cases h <;> simp_all
    simp_all

/-- How a rule is cached makes no difference to its outcome. -/
theorem evaluate_of_production_eq {grammar grammar' : Grammar K V T F}
    (hp : ∀ key, grammar.production key = grammar'.production key)
    (hg : ∀ key, grammar.strategy key = .grown ↔ grammar'.strategy key = .grown)
    {items items' : Nat → Except E (Option T)} {fuel fuel' : Nat} {key : K} {pos : Nat}
    (hf : (evaluate grammar items fuel key pos).Finishes) (hfuel : fuel ≤ fuel')
    (hi : ∀ i < (evaluate grammar items fuel key pos).reach, items' i = items i) :
    evaluate grammar' items' fuel' key pos = evaluate grammar items fuel key pos := by
  have hitems : ∀ i, i < (evaluate grammar items fuel key pos).reach →
      (Likeness.equality : Likeness K V T F E).Items (items i) (items' (i + 0)) := by
    intro i h
    rw [Nat.add_zero, hi i h]
    cases items i with
    | error e => exact rfl
    | ok item =>
      cases item with
      | none => exact .none
      | some t => exact .some rfl
  have hg' := Grammar.alike_of_production_eq (E := E) hp hg
  exact (evaluate_alike hg' hitems hfuel key pos).eq (Nat.le_refl _) hf

/-- Items that are not looked at make no difference. -/
theorem evaluate_congr {grammar : Grammar K V T F} {items items' : Nat → Except E (Option T)}
    {fuel : Nat} {key : K} {pos : Nat} (hf : (evaluate grammar items fuel key pos).Finishes)
    (hi : ∀ i < (evaluate grammar items fuel key pos).reach, items' i = items i) :
    evaluate grammar items' fuel key pos = evaluate grammar items fuel key pos :=
  evaluate_of_production_eq (fun _ => rfl) (fun _ => Iff.rfl) hf (Nat.le_refl fuel) hi

/-- More fuel makes no difference once there is enough. -/
theorem evaluate_of_le {grammar : Grammar K V T F} {items : Nat → Except E (Option T)}
    {fuel fuel' : Nat} {key : K} {pos : Nat} (hf : (evaluate grammar items fuel key pos).Finishes)
    (hfuel : fuel ≤ fuel') :
    evaluate grammar items fuel' key pos = evaluate grammar items fuel key pos :=
  evaluate_of_production_eq (fun _ => rfl) (fun _ => Iff.rfl) hf hfuel fun _ _ => rfl

theorem evaluate_eq_of_finishes {grammar : Grammar K V T F} {items : Nat → Except E (Option T)}
    {fuel fuel' : Nat} {key : K} {pos : Nat} (hf : (evaluate grammar items fuel key pos).Finishes)
    (hf' : (evaluate grammar items fuel' key pos).Finishes) :
    evaluate grammar items fuel' key pos = evaluate grammar items fuel key pos := by
  rcases Nat.le_total fuel fuel' with h | h
  · exact evaluate_of_le hf h
  · exact (evaluate_of_le hf' h).symm

/-! ## Errors -/

/-- Branches are alike whatever becomes of the errors of the items. -/
theorem Branch.Alike.withError {like : Likeness K V T F E} {R : α → α' → Prop}
    {branch : Branch K V T F α} {branch' : Branch K V T F α'} (h : branch.Alike like R branch')
    (error : E → E → Prop) : branch.Alike { like with error } R branch' := by
  induction h with
  | done h => exact .done h
  | fail => exact .fail
  | raise h => exact .raise h
  | take ha _ ih => exact .take ha ih
  | look _ ih => exact .look ih
  | call _ ih => exact .call ih
  | maybe ha _ ih => exact .maybe ha ih
  | star _ ih => exact .star ih

theorem Grammar.Alike.withError {like : Likeness K V T F E} {grammar grammar' : Grammar K V T F}
    (h : grammar.Alike like grammar') (error : E → E → Prop) :
    grammar.Alike { like with error } grammar' where
  branches key := (h.branches key).imp fun _ _ halike => halike.withError error
  leaky := h.leaky
  grown := h.grown

/-- What is equal is alike, and so are errors of one sort. -/
def Likeness.upToErrors (sort : E → Prop) : Likeness K V T F E :=
  { (Likeness.equality : Likeness K V T F E) with error := fun e _ => sort e }

/-- An error that a rule comes to is in the place of an item that it looks at. -/
theorem evaluate_item_error {grammar : Grammar K V T F} {items : Nat → Except E (Option T)}
    {fuel : Nat} {key : K} {pos : Nat} {e : E}
    (h : (evaluate grammar items fuel key pos).answer = .error (.item e)) :
    ∃ i < (evaluate grammar items fuel key pos).reach, items i = .error e := by
  set reach := (evaluate grammar items fuel key pos).reach with hreach
  have hgrammar : grammar.Alike
      (Likeness.upToErrors fun e => ∃ i < reach, items i = .error e) grammar :=
    (Grammar.alike_of_production_eq (fun _ => rfl) fun _ => Iff.rfl).withError _
  have hitems : ∀ i, i < reach →
      (Likeness.upToErrors fun e => ∃ i < reach, items i = .error e : Likeness K V T F E).Items
        (items i) (items (i + 0)) := by
    intro i hi
    rw [Nat.add_zero]
    rcases hitem : items i with e | _ | t
    · exact ⟨i, hi, hitem⟩
    · exact .none
    · exact .some rfl
  rcases evaluate_alike hgrammar hitems (Nat.le_refl fuel) key pos with hlt | hf | ⟨halike, -, -⟩
  · exact absurd hlt (Nat.lt_irrefl _)
  · exact absurd (by simp [Finishes, h]) hf
  · rw [Nat.add_zero, h] at halike
    exact halike

end OpticScript.Packrat
