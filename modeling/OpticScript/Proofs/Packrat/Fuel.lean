import OpticScript.Proofs.Packrat.Order

/-!
# Fuel for an evaluation

An item that no branch takes is a wall : from before it no rule gets past it, and nothing
behind it is looked at (`evaluate_upTo`). The end of a text is a wall, the mark at the end
of a sequence of tokens is one, and so is an error in the place of an item.

In a ranked grammar the calls that are nested at one position go down in rank, so between
a rule and the wall there are no more of them than there are items and ranks. `enough`
is an amount of fuel for them and for every repetition (`evaluate_finishes`).
-/

set_option linter.unusedSectionVars false

namespace OpticScript.Packrat

variable {K : Type} [DecidableEq K] {V : K → Type} {T F E α β : Type}

open Outcome

/-! ## Walls -/

/-- No branch takes the item at this position, if there is one. -/
def Wall (items : Nat → Except E (Option T)) (final : T → Prop) (wall : Nat) : Prop :=
  ∀ t, items wall = .ok (some t) → final t

/-- The branch takes no final item and calls only the given rules. -/
def Branch.Confined (final : T → Prop) (inside : K → Prop) : Branch K V T F α → Prop
  | done _ => True
  | fail => True
  | raise _ => True
  | take accept next =>
    (∀ item, final item → accept item = false) ∧ ∀ item, (next item).Confined final inside
  | look next => ∀ item, (next item).Confined final inside
  | call key next => inside key ∧ ∀ result, (next result).Confined final inside
  | maybe key _ next => inside key ∧ ∀ result, (next result).Confined final inside
  | star key next => inside key ∧ ∀ results, (next results).Confined final inside

@[simp] theorem Branch.confined_require_bind {final : T → Prop} {inside : K → Prop}
    {condition : Bool} {next : Unit → Branch K V T F α} :
    ((require condition).bind next).Confined final inside ↔
      (condition = true → (next ()).Confined final inside) := by
  cases condition <;> simp [require, Branch.bind, Confined]

@[simp] theorem Branch.confined_ofOption_bind {final : T → Prop} {inside : K → Prop}
    {value : Option β} {next : β → Branch K V T F α} :
    ((ofOption value).bind next).Confined final inside ↔
      ∀ b, value = some b → (next b).Confined final inside := by
  cases value <;> simp [ofOption, Branch.bind, Confined]

/-- Rules that call each other only, and take no final item. -/
def Grammar.Confined (grammar : Grammar K V T F) (final : T → Prop) (inside : K → Prop) : Prop :=
  ∀ key, inside key → ∀ branch ∈ (grammar.production key).branches, branch.Confined final inside

/-- An outcome that stays before the wall and looks no farther than at it. -/
structure Outcome.UpTo (wall : Nat) (o : Outcome F E α) : Prop where
  stop_le : o.Ensures fun _ stop => stop ≤ wall
  reach_le : o.reach ≤ wall + 1

namespace Outcome

theorem upTo_here (a : α) {pos wall : Nat} (h : pos ≤ wall) :
    (here a pos : Outcome F E α).UpTo wall :=
  ⟨ensures_here.2 h, Nat.le_succ_of_le h⟩

theorem upTo_fail (fault : Fault F E) {pos wall : Nat} (h : pos ≤ wall) :
    (fail fault pos : Outcome F E α).UpTo wall :=
  ⟨ensures_fail, Nat.le_succ_of_le h⟩

theorem UpTo.andThen {o : Outcome F E α} {next : α → Nat → Outcome F E β} {wall : Nat}
    (h : o.UpTo wall) (hn : o.Ensures fun a stop => stop ≤ wall → (next a stop).UpTo wall) :
    (o.andThen next).UpTo wall := by
  refine ⟨ensures_andThen.2 fun a ha => (hn a ha (h.stop_le a ha)).stop_le, ?_⟩
  cases ha : o.answer with
  | error fault =>
    rw [andThen_error ha]
    exact h.reach_le
  | ok a =>
    rw [andThen_ok ha]
    exact max_le h.reach_le (hn a ha (h.stop_le a ha)).reach_le

theorem UpTo.thenMatch {o : Outcome F E (Option α)} {next : α → Nat → Outcome F E (Option β)}
    {wall : Nat} (h : o.UpTo wall) (hn : ∀ a stop, stop ≤ wall → (next a stop).UpTo wall) :
    (o.thenMatch next).UpTo wall := by
  refine h.andThen fun result _ hle => ?_
  cases result with
  | none => exact upTo_here none hle
  | some a => exact hn a _ hle

end Outcome

section

variable {items : Nat → Except E (Option T)} {final : T → Prop} {wall : Nat} {inside : K → Prop}

theorem lookAt_upTo {pos : Nat} (h : pos ≤ wall) :
    (lookAt items pos : Outcome F E (Option T)).UpTo wall := by
  refine ⟨(lookAt_ensures items pos).imp fun _ _ hs => hs.2 ▸ h, ?_⟩
  unfold lookAt
  split <;> exact Nat.succ_le_succ h

theorem takeAt_upTo (hwall : Wall items final wall) {accept : T → Bool}
    (haccept : ∀ item, final item → accept item = false) {pos : Nat} (h : pos ≤ wall) :
    (takeAt items accept pos : Outcome F E (Option T)).UpTo wall := by
  rw [takeAt, thenMatch]
  refine (lookAt_upTo h).andThen ((lookAt_ensures items pos).imp fun item stop hs hle => ?_)
  obtain ⟨hi, rfl⟩ := hs
  cases item with
  | none => exact upTo_here none hle
  | some t =>
    dsimp only
    split
    · rename_i ht
      -- an item that is taken is not the wall
      have hne : stop ≠ wall := by
        rintro rfl
        simp [haccept t (hwall t hi)] at ht
      exact ⟨by rintro _ -; dsimp only; omega, by dsimp only; omega⟩
    · exact upTo_here none hle

theorem passesAt_upTo {pos : Nat} (h : pos ≤ wall) (ahead : Option (T → Bool)) :
    (passesAt items pos ahead : Outcome F E Bool).UpTo wall := by
  cases ahead with
  | none => exact upTo_here true h
  | some test => exact (lookAt_upTo h).andThen fun item _ hle => upTo_here _ hle

theorem repeated_upTo {callee : Nat → Outcome F E (Option α)}
    (hcallee : ∀ pos, pos ≤ wall → (callee pos).UpTo wall) :
    ∀ rounds pos, pos ≤ wall → (repeated callee rounds pos).UpTo wall
  | 0, _, h => upTo_fail _ h
  | rounds + 1, pos, h => by
    refine (hcallee pos h).andThen fun result _ hle => ?_
    cases result with
    | none => exact upTo_here [] hle
    | some a =>
      dsimp only
      split
      · exact upTo_here [a] hle
      · exact (repeated_upTo hcallee rounds _ hle).andThen fun results _ hle => upTo_here _ hle

theorem Branch.outcome_upTo (hwall : Wall items final wall)
    {callee : (key : K) → Nat → Outcome F E (Option (V key))}
    (hcallee : ∀ key pos, inside key → pos ≤ wall → (callee key pos).UpTo wall) (rounds : Nat)
    (branch : Branch K V T F α) (hb : branch.Confined final inside) {pos : Nat} (h : pos ≤ wall) :
    (branch.outcome items callee rounds pos).UpTo wall := by
  induction branch generalizing pos with
  | done result => exact upTo_here _ h
  | fail => exact upTo_here _ h
  | raise complaint => exact upTo_fail _ h
  | take accept next ih =>
    exact (takeAt_upTo hwall hb.1 h).thenMatch fun item stop hle => ih item (hb.2 item) hle
  | look next ih => exact (lookAt_upTo h).thenMatch fun item stop hle => ih item (hb item) hle
  | call key next ih =>
    exact (hcallee key pos hb.1 h).thenMatch fun result stop hle => ih result (hb.2 result) hle
  | maybe key ahead next ih =>
    rw [Branch.outcome]
    refine (hcallee key pos hb.1 h).andThen fun result _ hle => ?_
    cases result with
    | none => exact ih none (hb.2 none) h
    | some a =>
      refine (passesAt_upTo hle ahead).andThen fun passed _ hle' => ?_
      cases passed with
      | true => exact ih (some a) (hb.2 (some a)) hle'
      | false => exact ih none (hb.2 none) h
  | star key next ih =>
    exact (repeated_upTo (fun pos => hcallee key pos hb.1) rounds pos h).andThen
      fun results _ hle => ih results (hb.2 results) hle

theorem firstOutcome_upTo {run : β → Nat → Outcome F E (Option α)} {start : Nat} (leaky : Bool)
    (hstart : start ≤ wall) :
    ∀ branches, (∀ branch ∈ branches, (run branch start).UpTo wall) →
      ∀ cursor, cursor ≤ wall → (firstOutcome run start leaky branches cursor).UpTo wall
  | [], _, cursor, h => by
    cases leaky with
    | true => exact upTo_here none h
    | false => exact upTo_here none hstart
  | branch :: branches, hrun, _, _ => by
    refine (hrun branch (by simp)).andThen fun result _ hle => ?_
    cases result with
    | some a => exact upTo_here _ hle
    | none =>
      exact firstOutcome_upTo leaky hstart branches (fun b hb => hrun b (by simp [hb])) _ hle

theorem grownFrom_upTo {body : Memo α → Outcome F E (Option α)} {start : Nat}
    (hstart : start ≤ wall)
    (hbody : ∀ best : Memo α, best.stop ≤ wall → (body best).UpTo wall) :
    ∀ rounds best, best.stop ≤ wall → (grownFrom body start rounds best).UpTo wall
  | 0, _, _ => upTo_fail _ hstart
  | rounds + 1, best, hbest => by
    refine (hbody best hbest).andThen fun result _ hle => ?_
    split
    · exact grownFrom_upTo hstart hbody rounds _ hle
    · exact upTo_here _ hbest

theorem seeded_upTo {key : K} {start : Nat} {seed : Memo (V key)} (hseed : seed.stop ≤ wall)
    {callee : (key : K) → Nat → Outcome F E (Option (V key))}
    (hcallee : ∀ key pos, inside key → pos ≤ wall → (callee key pos).UpTo wall) (other : K)
    (pos : Nat) (ho : inside other) (h : pos ≤ wall) :
    (seeded key start seed callee other pos).UpTo wall := by
  unfold seeded
  split
  · rename_i heq
    obtain ⟨rfl, rfl⟩ := heq
    exact upTo_here _ hseed
  · exact hcallee other pos ho h

/-- From before the wall a rule stays before it and looks no farther than at it. -/
theorem evaluate_upTo {grammar : Grammar K V T F} (hg : grammar.Confined final inside)
    (hwall : Wall items final wall) (fuel : Nat) (key : K) (pos : Nat) (hkey : inside key)
    (h : pos ≤ wall) : (evaluate grammar items fuel key pos).UpTo wall := by
  induction fuel generalizing key pos with
  | zero => exact upTo_fail _ h
  | succ fuel ih =>
    rw [evaluate]
    split
    · exact grownFrom_upTo h (fun best hbest => firstOutcome_upTo _ h _ (fun branch hb =>
        branch.outcome_upTo hwall (seeded_upTo hbest ih) fuel (hg key hkey branch hb) h) pos h)
        fuel _ h
    · exact firstOutcome_upTo _ h _ (fun branch hb =>
        branch.outcome_upTo hwall ih fuel (hg key hkey branch hb) h) pos h

end

/-! ## A last step at the wall -/

/-- The branch calls only inside rules, and at its end it may call one of the `closing`
rules, which may take the wall. -/
def Branch.Closes (inside closing : K → Prop) : Branch K V T F α → Prop
  | done _ => True
  | fail => True
  | raise _ => True
  | take _ _ => False
  | look next => ∀ item, (next item).Closes inside closing
  | call key next => inside key ∧ (∀ result, (next result).Closes inside closing) ∨
      closing key ∧ ∀ result, ∃ a, next result = done a
  | maybe key _ next => inside key ∧ ∀ result, (next result).Closes inside closing
  | star key next => inside key ∧ ∀ results, (next results).Closes inside closing

/-- An outcome that neither stops after this position nor looks at what comes after it. -/
structure Outcome.Before (bound : Nat) (o : Outcome F E α) : Prop where
  stop_le : o.Ensures fun _ stop => stop ≤ bound
  reach_le : o.reach ≤ bound

namespace Outcome

theorem before_here (a : α) {pos bound : Nat} (h : pos ≤ bound) :
    (here a pos : Outcome F E α).Before bound :=
  ⟨ensures_here.2 h, h⟩

theorem before_fail (fault : Fault F E) {pos bound : Nat} (h : pos ≤ bound) :
    (fail fault pos : Outcome F E α).Before bound :=
  ⟨ensures_fail, h⟩

theorem Before.andThen {o : Outcome F E α} {next : α → Nat → Outcome F E β} {bound : Nat}
    (h : o.Before bound) (hn : o.Ensures fun a stop => stop ≤ bound → (next a stop).Before bound) :
    (o.andThen next).Before bound := by
  refine ⟨ensures_andThen.2 fun a ha => (hn a ha (h.stop_le a ha)).stop_le, ?_⟩
  cases ha : o.answer with
  | error fault =>
    rw [andThen_error ha]
    exact h.reach_le
  | ok a =>
    rw [andThen_ok ha]
    exact max_le h.reach_le (hn a ha (h.stop_le a ha)).reach_le

theorem UpTo.before {o : Outcome F E α} {wall : Nat} (h : o.UpTo wall) : o.Before (wall + 1) :=
  ⟨h.stop_le.imp fun _ _ hle => Nat.le_succ_of_le hle, h.reach_le⟩

/-- What comes after an outcome that stays before the wall may still use the wall. -/
theorem UpTo.andThen_before {o : Outcome F E α} {next : α → Nat → Outcome F E β} {wall : Nat}
    (h : o.UpTo wall) (hn : ∀ a stop, stop ≤ wall → (next a stop).Before (wall + 1)) :
    (o.andThen next).Before (wall + 1) :=
  h.before.andThen fun a ha _ => hn a _ (h.stop_le a ha)

end Outcome

section

variable {items : Nat → Except E (Option T)} {wall : Nat} {inside closing : K → Prop}

theorem takeAt_before (accept : T → Bool) (pos : Nat) :
    (takeAt items accept pos : Outcome F E (Option T)).Before (pos + 1) := by
  have hlook : (lookAt items pos : Outcome F E (Option T)).Before (pos + 1) :=
    (lookAt_upTo (Nat.le_refl pos)).before
  rw [takeAt, thenMatch]
  refine hlook.andThen ((lookAt_ensures items pos).imp fun item stop hs _ => ?_)
  obtain ⟨-, rfl⟩ := hs
  cases item with
  | none => exact before_here none (Nat.le_succ _)
  | some t =>
    dsimp only
    split
    · exact ⟨by rintro _ -; exact Nat.le_refl _, Nat.le_refl _⟩
    · exact before_here none (Nat.le_succ _)

theorem Branch.outcome_before {callee : (key : K) → Nat → Outcome F E (Option (V key))}
    (hinside : ∀ key pos, inside key → pos ≤ wall → (callee key pos).UpTo wall)
    (hclosing : ∀ key pos, closing key → pos ≤ wall → (callee key pos).Before (wall + 1))
    (rounds : Nat) (branch : Branch K V T F α) (hb : branch.Closes inside closing) {pos : Nat}
    (h : pos ≤ wall) : (branch.outcome items callee rounds pos).Before (wall + 1) := by
  induction branch generalizing pos with
  | done result => exact (upTo_here _ h).before
  | fail => exact (upTo_here _ h).before
  | raise complaint => exact (upTo_fail _ h).before
  | take accept next => exact hb.elim
  | look next ih =>
    rw [Branch.outcome, thenMatch]
    refine (lookAt_upTo h).andThen_before fun item stop hle => ?_
    cases item with
    | none => exact (upTo_here none hle).before
    | some t => exact ih t (hb t) hle
  | call key next ih =>
    rw [Branch.outcome, thenMatch]
    rcases hb with ⟨hkey, hnext⟩ | ⟨hkey, hdone⟩
    · refine (hinside key pos hkey h).andThen_before fun result stop hle => ?_
      cases result with
      | none => exact (upTo_here none hle).before
      | some a => exact ih a (hnext a) hle
    · refine (hclosing key pos hkey h).andThen fun result _ hle => ?_
      cases result with
      | none => exact before_here none hle
      | some a =>
        obtain ⟨value, hvalue⟩ := hdone a
        dsimp only
        rw [hvalue]
        exact before_here _ hle
  | maybe key ahead next ih =>
    rw [Branch.outcome]
    refine (hinside key pos hb.1 h).andThen_before fun result stop hle => ?_
    cases result with
    | none => exact ih none (hb.2 none) h
    | some a =>
      refine (passesAt_upTo hle ahead).andThen_before fun passed stop' hle' => ?_
      cases passed with
      | true => exact ih (some a) (hb.2 (some a)) hle'
      | false => exact ih none (hb.2 none) h
  | star key next ih =>
    exact (repeated_upTo (fun pos => hinside key pos hb.1) rounds pos h).andThen_before
      fun results _ hle => ih results (hb.2 results) hle

theorem firstOutcome_before {run : β → Nat → Outcome F E (Option α)} {start bound : Nat}
    (leaky : Bool) (hstart : start ≤ bound) :
    ∀ branches, (∀ branch ∈ branches, (run branch start).Before bound) →
      ∀ cursor, cursor ≤ bound → (firstOutcome run start leaky branches cursor).Before bound
  | [], _, cursor, h => by
    cases leaky with
    | true => exact before_here none h
    | false => exact before_here none hstart
  | branch :: branches, hrun, _, _ => by
    refine (hrun branch (by simp)).andThen fun result _ hle => ?_
    cases result with
    | some a => exact before_here _ hle
    | none =>
      exact firstOutcome_before leaky hstart branches (fun b hb => hrun b (by simp [hb])) _ hle

/-- A rule that may take the wall at its end, and calls itself nowhere, does not look past the
wall. -/
theorem evaluate_before {grammar : Grammar K V T F} {fuel : Nat} {key : K} {pos : Nat}
    (hplain : grammar.strategy key ≠ .grown)
    (hbranches : ∀ branch ∈ (grammar.production key).branches, branch.Closes inside closing)
    (hinside : ∀ key pos, inside key → pos ≤ wall →
      (evaluate grammar items fuel key pos).UpTo wall)
    (hclosing : ∀ key pos, closing key → pos ≤ wall →
      (evaluate grammar items fuel key pos).Before (wall + 1)) (h : pos ≤ wall) :
    (evaluate grammar items (fuel + 1) key pos).Before (wall + 1) := by
  rw [evaluate, if_neg hplain]
  exact firstOutcome_before _ (Nat.le_succ_of_le h) _ (fun branch hb =>
    branch.outcome_before hinside hclosing fuel (hbranches branch hb) h) pos (Nat.le_succ_of_le h)

end

/-! ## Enough fuel -/

namespace Outcome

/-- The evaluation had fuel enough. -/
def Finishes (o : Outcome F E α) : Prop := o.answer ≠ .error .outOfFuel

theorem finishes_here (a : α) (pos : Nat) : (here a pos : Outcome F E α).Finishes := by
  simp [Finishes, here]

theorem Finishes.map {o : Outcome F E α} (h : o.Finishes) (f : α → β) : (o.map f).Finishes :=
  fun hfuel => h (map_answer_error.1 hfuel)

theorem Finishes.andThen {o : Outcome F E α} {next : α → Nat → Outcome F E β} (h : o.Finishes)
    (hn : o.Ensures fun a stop => (next a stop).Finishes) : (o.andThen next).Finishes := by
  cases ha : o.answer with
  | error fault =>
    rw [andThen_error ha]
    simpa [Finishes, ha] using h
  | ok a =>
    rw [andThen_ok ha]
    exact hn a ha

theorem Finishes.thenMatch {o : Outcome F E (Option α)}
    {next : α → Nat → Outcome F E (Option β)} (h : o.Finishes)
    (hn : o.Ensures fun result stop => ∀ a, result = some a → (next a stop).Finishes) :
    (o.thenMatch next).Finishes := by
  refine h.andThen (hn.imp fun result stop hr => ?_)
  cases result with
  | none => exact finishes_here none stop
  | some a => exact hr a rfl

theorem UpTo.ensures {o : Outcome F E α} {pos wall : Nat} (h : o.UpTo wall) (hw : o.Within pos) :
    o.Ensures fun _ stop => pos ≤ stop ∧ stop ≤ wall :=
  fun a ha => ⟨hw.le_stop, h.stop_le a ha⟩

end Outcome

theorem lookAt_finishes (items : Nat → Except E (Option T)) (pos : Nat) :
    (lookAt items pos : Outcome F E (Option T)).Finishes := by
  unfold lookAt Finishes
  split <;> simp

theorem takeAt_finishes (items : Nat → Except E (Option T)) (accept : T → Bool) (pos : Nat) :
    (takeAt items accept pos : Outcome F E (Option T)).Finishes := by
  refine (lookAt_finishes items pos).thenMatch fun _ _ item _ => ?_
  split <;> simp [Finishes, here]

theorem passesAt_finishes (items : Nat → Except E (Option T)) (pos : Nat)
    (ahead : Option (T → Bool)) : (passesAt items pos ahead : Outcome F E Bool).Finishes := by
  cases ahead with
  | none => exact finishes_here true pos
  | some test => exact (lookAt_finishes items pos).andThen fun _ _ => finishes_here _ _

section

variable {items : Nat → Except E (Option T)} {final : T → Prop} {wall : Nat} {inside : K → Prop}

/-- Each match but the last takes an item, so the matches end before the rounds do. -/
theorem repeated_finishes {callee : Nat → Outcome F E (Option α)} (start : Nat)
    (hwithin : ∀ pos, (callee pos).Within pos)
    (hupTo : ∀ pos, pos ≤ wall → (callee pos).UpTo wall)
    (hcallee : ∀ pos, start ≤ pos → pos ≤ wall → (callee pos).Finishes) :
    ∀ rounds pos, start ≤ pos → pos ≤ wall → wall < pos + rounds →
      (repeated callee rounds pos).Finishes
  | 0, pos, _, h, hr => absurd hr (by omega)
  | rounds + 1, pos, hs, h, hr => by
    refine (hcallee pos hs h).andThen
      (((hupTo pos h).ensures (hwithin pos)).imp fun result stop hstop => ?_)
    cases result with
    | none => exact finishes_here [] stop
    | some a =>
      dsimp only
      split
      · exact finishes_here [a] stop
      · exact (repeated_finishes start hwithin hupTo hcallee rounds stop (by omega) hstop.2
          (by omega)).andThen fun results _ => finishes_here _ _

theorem Branch.outcome_finishes {grammar : Grammar K V T F} {rank : K → Nat} {consumes : K → Bool}
    {key : K} (hwall : Wall items final wall)
    {callee : (key : K) → Nat → Outcome F E (Option (V key))}
    (hadvances : ∀ key pos, (callee key pos).Advances (consumes key) pos)
    (hupTo : ∀ key pos, inside key → pos ≤ wall → (callee key pos).UpTo wall) {start : Nat}
    (hcallee : ∀ other pos, inside other → start ≤ pos → pos ≤ wall →
      (start < pos ∨ grammar.MayCall rank key false other) → (callee other pos).Finishes)
    {rounds : Nat} (hrounds : wall < start + rounds) (branch : Branch K V T F α) {moved : Bool}
    (hb : branch.Ranked grammar rank consumes key moved) (hc : branch.Confined final inside)
    {pos : Nat} (hpos : start ≤ pos) (hle : pos ≤ wall) (hmoved : moved = true → start < pos) :
    (branch.outcome items callee rounds pos).Finishes := by
  induction branch generalizing moved pos with
  | done result => exact finishes_here _ pos
  | fail => exact finishes_here _ pos
  | raise complaint => simp [Branch.outcome, Finishes, Outcome.fail]
  | take accept next ih =>
    refine (takeAt_finishes items accept pos).thenMatch
      (fun item hi t ht => ih t (hb t) (hc.2 t) ?_ ?_ fun _ => ?_)
    all_goals
      subst ht
      have := takeAt_ensures items accept pos _ hi t rfl
      have := (takeAt_upTo (F := F) hwall hc.1 hle).stop_le _ hi
      omega
  | look next ih =>
    refine (lookAt_finishes items pos).thenMatch
      ((lookAt_ensures items pos).imp fun item stop hi t _ => ?_)
    obtain ⟨-, rfl⟩ := hi
    exact ih t (hb t) (hc t) hpos hle hmoved
  | call other next ih =>
    refine (hcallee other pos hc.1 hpos hle (hb.1.lt_or hmoved)).thenMatch ?_
    refine fun result hr a ha => ih a (hb.2 a) (hc.2 a) ?_ ?_ ?_
    · exact hpos.trans (hadvances other pos).le_stop
    · exact (hupTo other pos hc.1 hle).stop_le _ hr
    · have hstop := (hadvances other pos).ensures _ hr
      exact lt_stop_of_moved hpos hstop.1 hmoved fun hc => hstop.2 hc (by simp [ha])
  | maybe other ahead next ih =>
    rw [Branch.outcome]
    refine (hcallee other pos hc.1 hpos hle (hb.1.lt_or hmoved)).andThen fun result hr => ?_
    have hstop := (hadvances other pos).ensures _ hr
    have hup := (hupTo other pos hc.1 hle).stop_le _ hr
    cases result with
    | none => exact ih none hb.2.1 (hc.2 none) hpos hle hmoved
    | some a =>
      refine (passesAt_finishes items _ ahead).andThen fun passed hp => ?_
      have hple := (passesAt_within (F := F) items (callee other pos).stop ahead).le_stop
      have hpass : (passesAt items _ ahead : Outcome F E Bool).UpTo wall := passesAt_upTo hup ahead
      have hpup := hpass.stop_le _ hp
      cases passed with
      | true =>
        exact ih (some a) (hb.2.2 a) (hc.2 (some a)) (by omega) hpup (lt_stop_of_moved hpos
          (hstop.1.trans hple) hmoved fun hc => (hstop.2 hc rfl).trans_le hple)
      | false => exact ih none hb.2.1 (hc.2 none) hpos hle hmoved
  | star other next ih =>
    have hwithin := fun pos => (hadvances other pos).toWithin
    have hup := fun pos => hupTo other pos hc.1
    have hrep := repeated_finishes pos hwithin hup
      (fun p hp hpw => hcallee other p hc.1 (hpos.trans hp) hpw
        (hb.1.lt_or fun hm => (hmoved hm).trans_le hp)) rounds pos (Nat.le_refl pos) hle (by omega)
    refine hrep.andThen fun results hr => ?_
    have hle' := (repeated_within hwithin rounds pos).le_stop
    exact ih results (hb.2 results) (hc.2 results) (hpos.trans hle')
      ((repeated_upTo hup rounds pos hle).stop_le _ hr) fun hm => (hmoved hm).trans_le hle'

theorem firstOutcome_finishes {run : β → Nat → Outcome F E (Option α)} {start : Nat}
    (leaky : Bool) :
    ∀ branches, (∀ branch ∈ branches, (run branch start).Finishes) →
      ∀ cursor, (firstOutcome run start leaky branches cursor).Finishes
  | [], _, _ => finishes_here none _
  | branch :: branches, hrun, _ => by
    refine (hrun branch (by simp)).andThen fun result _ => ?_
    cases result with
    | some a => exact finishes_here _ _
    | none => exact firstOutcome_finishes leaky branches (fun b hb => hrun b (by simp [hb])) _

/-- Each better outcome gets farther, so the growth ends before the rounds do. -/
theorem grownFrom_finishes {body : Memo α → Outcome F E (Option α)} {start : Nat}
    (hbody : ∀ best : Memo α, best.IsSeed start → best.stop ≤ wall →
      (body best).Finishes ∧ (body best).UpTo wall) :
    ∀ rounds best, best.IsSeed start → best.stop ≤ wall → wall < best.stop + rounds →
      (grownFrom body start rounds best).Finishes
  | 0, best, _, h, hr => absurd hr (by omega)
  | rounds + 1, best, hbest, h, hr => by
    obtain ⟨hfin, hup⟩ := hbody best hbest h
    refine hfin.andThen (hup.stop_le.imp fun result stop hstop => ?_)
    split
    · rename_i hlt
      exact grownFrom_finishes hbody rounds _ (hbest.better result hlt.2) hstop
        (by dsimp only; omega)
    · exact finishes_here _ _

theorem seeded_finishes {key : K} {start : Nat} {seed : Memo (V key)}
    {callee : (key : K) → Nat → Outcome F E (Option (V key))} {other : K} {pos : Nat}
    (h : ¬(key = other ∧ start = pos) → (callee other pos).Finishes) :
    (seeded key start seed callee other pos).Finishes := by
  unfold seeded
  split
  · exact finishes_here _ _
  · rename_i hne
    exact h hne

/-- An amount of fuel for a rule of the given rank at `pos`. -/
def enough (height wall rank pos : Nat) : Nat := (height + 1) * (wall - pos) + rank + 3

theorem enough_lt_of_lt {height wall rank rank' pos pos' : Nat} (hr : rank' < height)
    (hp : pos < pos') (hw : pos' ≤ wall) :
    enough height wall rank' pos' < enough height wall rank pos := by
  have hmul : (height + 1) * (wall - pos' + 1) ≤ (height + 1) * (wall - pos) :=
    Nat.mul_le_mul_left _ (by omega)
  rw [Nat.mul_succ] at hmul
  unfold enough
  omega

theorem lt_enough (height wall rank pos : Nat) : wall < pos + enough height wall rank pos - 2 := by
  have : wall - pos ≤ (height + 1) * (wall - pos) := Nat.le_mul_of_pos_left _ (by omega)
  unfold enough
  omega

/-- A rule of a ranked grammar before a wall comes to an end, and not for want of fuel. -/
theorem Grammar.Ranking.evaluate_finishes {grammar : Grammar K V T F} (ranking : grammar.Ranking)
    {height : Nat} (hheight : ∀ key, ranking.rank key < height)
    (hg : grammar.Confined final inside) (hwall : Wall items final wall) {fuel : Nat} {key : K}
    {pos : Nat} (hkey : inside key) (hle : pos ≤ wall)
    (hfuel : enough height wall (ranking.rank key) pos ≤ fuel) :
    (evaluate grammar items fuel key pos).Finishes := by
  induction fuel generalizing key pos with
  | zero => simp [enough] at hfuel
  | succ fuel ih =>
    have hrounds : wall < pos + fuel := by
      have := lt_enough height wall (ranking.rank key) pos
      omega
    -- the calls of the branches go on, or they go down in rank
    have hcalls : ∀ other pos', inside other → pos ≤ pos' → pos' ≤ wall →
        (pos < pos' ∨ grammar.MayCall ranking.rank key false other) →
        ¬(grammar.strategy key = .grown ∧ key = other ∧ pos = pos') →
        (evaluate grammar items fuel other pos').Finishes := by
      intro other pos' ho hpos hw hmay hself
      refine ih ho hw (Nat.le_of_lt_succ (Nat.lt_of_lt_of_le ?_ hfuel))
      rcases Nat.lt_or_eq_of_le hpos with hlt | rfl
      · exact enough_lt_of_lt (hheight other) hlt hw
      · rcases hmay with h | h | h | ⟨rfl, h⟩
        · omega
        · exact absurd h (by simp)
        · unfold enough
          omega
        · exact absurd ⟨h, rfl, rfl⟩ hself
    have hadv := ranking.evaluate_advances items fuel
    have hup := evaluate_upTo hg hwall fuel
    rw [evaluate]
    split
    · rename_i hgrown
      refine grownFrom_finishes (fun best hbest hbw => ⟨?_, ?_⟩) fuel _
        (Memo.isSeed_failure pos) hle hrounds
      · refine firstOutcome_finishes _ _ (fun branch hb => ?_) pos
        exact branch.outcome_finishes hwall (seeded_advances hbest hadv) (seeded_upTo hbw hup)
          (fun other pos' ho hp hw hmay => seeded_finishes fun hne =>
            hcalls other pos' ho hp hw hmay fun h => hne h.2) hrounds
          (ranking.ranked key branch hb) (hg key hkey branch hb) (Nat.le_refl pos) hle (by simp)
      · exact firstOutcome_upTo _ hle _ (fun branch hb => branch.outcome_upTo hwall
          (seeded_upTo hbw hup) fuel (hg key hkey branch hb) hle) pos hle
    · rename_i hgrown
      refine firstOutcome_finishes _ _ (fun branch hb => ?_) pos
      exact branch.outcome_finishes hwall hadv hup
        (fun other pos' ho hp hw hmay => hcalls other pos' ho hp hw hmay fun h => hgrown h.1)
        hrounds (ranking.ranked key branch hb) (hg key hkey branch hb) (Nat.le_refl pos) hle
        (by simp)

end

end OpticScript.Packrat
