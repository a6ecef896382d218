import OpticScript.Proofs.Packrat.Chains
import OpticScript.Proofs.Packrat.Likeness
import OpticScript.Proofs.Packrat.Soundness

/-!
# Where an evaluation fails

A complaint that ends an evaluation is raised by a branch of some rule, at a place that the branch
comes to when the rules it calls answer as they do (`Branch.Complains`). So what holds of every
complaint that a branch can raise holds of those that an evaluation ends with
(`evaluate_complains`). A call of a rule that is not grown is answered by the rule itself, and not
by a memo (`Answers`).

Where a rule does not match none of its branches does (`Branch.Fails`), if the rule is not grown,
and a rule for chains does not match where its operand does not (`IsChainRule.base_none`).
-/

set_option linter.unusedSectionVars false

namespace OpticScript.Packrat

variable {K : Type} [DecidableEq K] {V : K → Type} {T F E α β : Type}

open Filter Outcome

/-- Nothing has to be known of a branch for what holds of everything. -/
theorem Branch.yields_of_forall {items : Nat → Except E (Option T)} {means : Meaning K V}
    {Q : α → Nat → Prop} (branch : Branch K V T F α) (h : ∀ a stop, Q a stop) (pos : Nat) :
    branch.Yields items means Q pos := by
  induction branch generalizing pos with
  | done a => exact h a pos
  | fail | raise _ => trivial
  | take accept next ih => exact fun t _ _ => ih t _
  | look next ih => exact fun t _ => ih t _
  | call key next ih => exact fun a stop _ => ih a stop
  | maybe key ahead next ih => exact ⟨ih none _, fun a stop _ _ => ih (some a) stop⟩
  | star key next ih => exact fun as stop _ => ih as stop

/-! ## Complaints -/

/-- The property holds of the complaint that the evaluation ends with, if it ends with one. -/
def Outcome.Complains (o : Outcome F E α) (Q : F → Prop) : Prop :=
  ∀ c, o.answer = .error (.complaint c) → Q c

/-- What a call of a rule may be answered with : what the rule comes to, unless it is grown. -/
def Answers (grammar : Grammar K V T F) (items : Nat → Except E (Option T)) (key : K) (pos : Nat)
    (result : Option (V key)) (stop : Nat) : Prop :=
  grammar.strategy key ≠ .grown → Matches (evaluate grammar items) key pos result stop

/-- The property holds of every complaint that the branch raises from a position, if its calls are
answered like this. -/
def Branch.Complains (items : Nat → Except E (Option T))
    (answers : (key : K) → Nat → Option (V key) → Nat → Prop) (Q : F → Prop) :
    Branch K V T F α → Nat → Prop
  | done _, _ => True
  | fail, _ => True
  | raise complaint, _ => Q complaint
  | take accept next, pos =>
    ∀ t, items pos = .ok (some t) → accept t = true → (next t).Complains items answers Q (pos + 1)
  | look next, pos => ∀ t, items pos = .ok (some t) → (next t).Complains items answers Q pos
  | call key next, pos =>
    ∀ a stop, answers key pos (some a) stop → (next a).Complains items answers Q stop
  | maybe key ahead next, pos =>
    (ahead = none → ∀ stop, answers key pos none stop → (next none).Complains items answers Q pos) ∧
      (ahead ≠ none → (next none).Complains items answers Q pos) ∧
      ∀ a stop, answers key pos (some a) stop → (next (some a)).Complains items answers Q stop
  | star _ next, _ => ∀ as stop, (next as).Complains items answers Q stop

section

variable {items : Nat → Except E (Option T)} {Q : F → Prop}

@[simp] theorem Branch.complains_require_bind {condition : Bool} {next : Unit → Branch K V T F α}
    {answers : (key : K) → Nat → Option (V key) → Nat → Prop} {pos : Nat} :
    ((require condition).bind next).Complains items answers Q pos ↔
      (condition = true → (next ()).Complains items answers Q pos) := by
  cases condition <;> simp [require, Branch.bind, Complains]

@[simp] theorem Branch.complains_ofOption_bind {value : Option β} {next : β → Branch K V T F α}
    {answers : (key : K) → Nat → Option (V key) → Nat → Prop} {pos : Nat} :
    ((ofOption value).bind next).Complains items answers Q pos ↔
      ∀ b, value = some b → (next b).Complains items answers Q pos := by
  cases value <;> simp [ofOption, Branch.bind, Complains]

theorem complains_here (a : α) (pos : Nat) : (here a pos : Outcome F E α).Complains Q := by
  simp [Outcome.Complains, here]

theorem Outcome.Complains.andThen {o : Outcome F E α} {next : α → Nat → Outcome F E β}
    (h : o.Complains Q) (hnext : ∀ a, o.answer = .ok a → (next a o.stop).Complains Q) :
    (o.andThen next).Complains Q := by
  rcases ha : o.answer with fault | a
  · intro c hc
    rw [andThen_error ha] at hc
    exact h c (ha.trans (congrArg Except.error (Except.error.inj hc)))
  · rw [andThen_ok ha]
    exact hnext a ha

theorem Outcome.Complains.thenMatch {o : Outcome F E (Option α)}
    {next : α → Nat → Outcome F E (Option β)} (h : o.Complains Q)
    (hnext : ∀ a, o.answer = .ok (some a) → (next a o.stop).Complains Q) :
    (o.thenMatch next).Complains Q := by
  refine h.andThen fun result hresult => ?_
  cases result with
  | none => exact complains_here _ _
  | some a => exact hnext a hresult

theorem complains_lookAt (pos : Nat) : (lookAt items pos : Outcome F E (Option T)).Complains Q := by
  unfold lookAt
  split <;> simp [Outcome.Complains]

theorem complains_takeAt (accept : T → Bool) (pos : Nat) :
    (takeAt items accept pos : Outcome F E (Option T)).Complains Q := by
  refine (complains_lookAt pos).thenMatch fun t _ => ?_
  split
  · simp [Outcome.Complains]
  · exact complains_here _ _

theorem complains_passesAt (pos : Nat) (ahead : Option (T → Bool)) :
    (passesAt items pos ahead : Outcome F E Bool).Complains Q := by
  cases ahead with
  | none => exact complains_here _ _
  | some test => exact (complains_lookAt pos).andThen fun _ _ => complains_here _ _

theorem complains_repeated {callee : Nat → Outcome F E (Option α)}
    (h : ∀ pos, (callee pos).Complains Q) : ∀ rounds pos, (repeated callee rounds pos).Complains Q
  | 0, pos => by simp [Outcome.Complains, repeated, Outcome.fail]
  | rounds + 1, pos => by
    refine (h pos).andThen fun result _ => ?_
    cases result with
    | none => exact complains_here _ _
    | some a =>
      dsimp only
      split
      · exact complains_here _ _
      · exact (complains_repeated h rounds _).andThen fun _ _ => complains_here _ _

theorem Branch.complains_outcome {callee : (key : K) → Nat → Outcome F E (Option (V key))}
    {answers : (key : K) → Nat → Option (V key) → Nat → Prop}
    (hcallee : ∀ key pos, (callee key pos).Complains Q)
    (hanswers : ∀ key pos, (callee key pos).Ensures (answers key pos)) (rounds : Nat)
    {branch : Branch K V T F α} {pos : Nat} (hb : branch.Complains items answers Q pos) :
    (branch.outcome items callee rounds pos).Complains Q := by
  induction branch generalizing pos with
  | done result => exact complains_here _ _
  | fail => exact complains_here _ _
  | raise complaint =>
    rintro c hc
    obtain rfl : complaint = c := by simpa [Branch.outcome, Outcome.fail] using hc
    exact hb
  | take accept next ih =>
    refine (complains_takeAt accept pos).thenMatch fun t ht => ?_
    obtain ⟨hitem, haccept, hstop⟩ := takeAt_ensures items accept pos _ ht t rfl
    rw [hstop]
    exact ih t (hb t hitem haccept)
  | look next ih =>
    refine (complains_lookAt pos).thenMatch fun t ht => ?_
    obtain ⟨hitem, hstop⟩ := lookAt_ensures items pos _ ht
    rw [hstop]
    exact ih t (hb t hitem)
  | call key next ih =>
    exact (hcallee key pos).thenMatch fun a ha => ih a (hb a _ (hanswers key pos _ ha))
  | maybe key ahead next ih =>
    obtain ⟨hnone, hahead, hsome⟩ := hb
    rw [Branch.outcome]
    refine (hcallee key pos).andThen fun result hresult => ?_
    have hresult := hanswers key pos _ hresult
    cases result with
    | none =>
      refine ih none ?_
      rcases eq_or_ne ahead none with rfl | hne
      · exact hnone rfl _ hresult
      · exact hahead hne
    | some a =>
      refine (complains_passesAt _ ahead).andThen fun passed hpassed => ?_
      cases passed with
      | true =>
        obtain ⟨hstop, -⟩ := passesAt_ensures items _ ahead _ hpassed
        rw [hstop]
        exact ih (some a) (hsome a _ hresult)
      | false =>
        refine ih none (hahead ?_)
        rintro rfl
        simp [passesAt, here] at hpassed
  | star key next ih =>
    exact (complains_repeated (hcallee key) rounds pos).andThen fun as _ => ih as (hb as _)

theorem complains_firstOutcome {run : β → Nat → Outcome F E (Option α)} {start : Nat}
    (leaky : Bool) : ∀ branches, (∀ branch ∈ branches, (run branch start).Complains Q) →
      ∀ cursor, (firstOutcome run start leaky branches cursor).Complains Q
  | [], _, _ => complains_here _ _
  | branch :: branches, h, _ => by
    refine (h branch (by simp)).andThen fun result _ => ?_
    cases result with
    | some a => exact complains_here _ _
    | none => exact complains_firstOutcome leaky branches (fun b hb => h b (by simp [hb])) _

theorem complains_grownFrom {body : Memo α → Outcome F E (Option α)} {start : Nat}
    (hbody : ∀ best, (body best).Complains Q) :
    ∀ rounds best, (grownFrom body start rounds best).Complains Q
  | 0, _ => by simp [Outcome.Complains, grownFrom, Outcome.fail]
  | rounds + 1, best => by
    refine (hbody best).andThen fun result _ => ?_
    split
    · exact complains_grownFrom hbody rounds _
    · exact complains_here _ _

theorem complains_seeded {key : K} {start : Nat} {seed : Memo (V key)}
    {callee : (key : K) → Nat → Outcome F E (Option (V key))}
    (hcallee : ∀ key pos, (callee key pos).Complains Q) (other : K) (pos : Nat) :
    (seeded key start seed callee other pos).Complains Q := by
  unfold seeded
  split
  · exact complains_here _ _
  · exact hcallee other pos

end

section

variable {grammar : Grammar K V T F} {items : Nat → Except E (Option T)} {key : K} {pos stop : Nat}

/-- An answer is the same with more fuel. -/
theorem matches_of_answer {fuel : Nat} {result : Option (V key)}
    (h : (evaluate grammar items fuel key pos).answer = .ok result) :
    Matches (evaluate grammar items) key pos result (evaluate grammar items fuel key pos).stop := by
  have hfinishes : (evaluate grammar items fuel key pos).Finishes := by simp [Finishes, h]
  filter_upwards [eventually_ge_atTop fuel] with fuel' hle
  rw [evaluate_of_le hfinishes hle]
  exact ⟨h, rfl⟩

theorem evaluate_answers (fuel : Nat) (key : K) (pos : Nat) :
    (evaluate grammar items fuel key pos).Ensures (Answers grammar items key pos) :=
  fun _ h _ => matches_of_answer h

/-- A seed answers for a rule that is grown only. -/
theorem seeded_answers (hgrown : grammar.strategy key = .grown) {start : Nat} {seed : Memo (V key)}
    {fuel : Nat} (other : K) (pos : Nat) :
    (seeded key start seed (evaluate grammar items fuel) other pos).Ensures
      (Answers grammar items other pos) := by
  unfold seeded
  split
  · rename_i h
    obtain ⟨rfl, rfl⟩ := h
    exact ensures_here.2 fun hplain => absurd hgrown hplain
  · exact evaluate_answers fuel other pos

/-- What holds of every complaint of a branch holds of the complaint that an evaluation ends
with. -/
theorem evaluate_complains {Q : F → Prop}
    (hcomplains : ∀ key, ∀ branch ∈ (grammar.production key).branches, ∀ pos,
      branch.Complains items (Answers grammar items) Q pos) (fuel : Nat) (key : K) (pos : Nat) :
    (evaluate grammar items fuel key pos).Complains Q := by
  induction fuel generalizing key pos with
  | zero => simp [Outcome.Complains, evaluate, Outcome.fail]
  | succ fuel ih =>
    rw [evaluate]
    split
    · rename_i hgrown
      refine complains_grownFrom (fun seed => ?_) fuel _
      exact complains_firstOutcome _ _ (fun branch hb => branch.complains_outcome
        (complains_seeded ih) (seeded_answers hgrown) fuel (hcomplains key branch hb pos)) pos
    · exact complains_firstOutcome _ _ (fun branch hb => branch.complains_outcome
        ih (evaluate_answers fuel) fuel (hcomplains key branch hb pos)) pos

/-! ## Failures -/

/-- The branch does not match, with some amount of fuel, and there is no error. -/
def Branch.Fails (grammar : Grammar K V T F) (items : Nat → Except E (Option T))
    (branch : Branch K V T F α) (pos : Nat) : Prop :=
  ∃ fuel, (branch.outcome items (evaluate grammar items fuel) fuel pos).answer = .ok none

theorem Outcome.thenMatch_eq_none {o : Outcome F E (Option α)}
    {next : α → Nat → Outcome F E (Option β)} (h : (o.thenMatch next).answer = .ok none) :
    o.answer = .ok none ∨ ∃ a, o.answer = .ok (some a) ∧ (next a o.stop).answer = .ok none := by
  rcases ha : o.answer with fault | _ | a
  · simp [thenMatch, andThen_error ha] at h
  · exact .inl rfl
  · rw [thenMatch, andThen_ok ha] at h
    exact .inr ⟨a, rfl, h⟩

namespace Branch

@[simp] theorem not_fails_done (a : α) : ¬(done a : Branch K V T F α).Fails grammar items pos := by
  simp [Fails, outcome, here]

@[simp] theorem not_fails_raise (complaint : F) :
    ¬(raise complaint : Branch K V T F α).Fails grammar items pos := by
  simp [Fails, outcome, Outcome.fail]

/-- A rule that is called does not match, or what comes after it does not. -/
theorem Fails.call {next : V key → Branch K V T F α} (h : (call key next).Fails grammar items pos) :
    (∃ stop, Packrat.Matches (evaluate grammar items) key pos none stop) ∨
      ∃ a stop, Packrat.Matches (evaluate grammar items) key pos (some a) stop ∧
        (next a).Fails grammar items stop := by
  obtain ⟨fuel, h⟩ := h
  rcases Outcome.thenMatch_eq_none h with hnone | ⟨a, hsome, hnext⟩
  · exact .inl ⟨_, matches_of_answer hnone⟩
  · exact .inr ⟨a, _, matches_of_answer hsome, fuel, hnext⟩

/-- A rule that a branch ends with does not match. -/
theorem Fails.last {next : V key → α}
    (h : (Branch.call key fun a => done (next a)).Fails grammar items pos) :
    ∃ stop, Packrat.Matches (evaluate grammar items) key pos none stop := by
  rcases h.call with hnone | ⟨a, stop, -, hdone⟩
  · exact hnone
  · exact absurd hdone (not_fails_done _)

/-- There is no item, or what comes after it does not match. -/
theorem Fails.look {next : T → Branch K V T F α} (h : (look next).Fails grammar items pos) :
    items pos = .ok none ∨ ∃ t, items pos = .ok (some t) ∧ (next t).Fails grammar items pos := by
  obtain ⟨fuel, h⟩ := h
  rcases Outcome.thenMatch_eq_none h with hnone | ⟨t, hsome, hnext⟩
  · exact .inl (lookAt_ensures items pos _ hnone).1
  · obtain ⟨hitem, hstop⟩ := lookAt_ensures items pos _ hsome
    exact .inr ⟨t, hitem, fuel, hstop ▸ hnext⟩

/-- There is no item, or it is refused, or what comes after it does not match. -/
theorem Fails.take {accept : T → Bool} {next : T → Branch K V T F α}
    (h : (take accept next).Fails grammar items pos) :
    items pos = .ok none ∨ ∃ t, items pos = .ok (some t) ∧
      (accept t = true → (next t).Fails grammar items (pos + 1)) := by
  obtain ⟨fuel, h⟩ := h
  rw [outcome] at h
  rcases hitem : items pos with e | _ | t
  · simp [takeAt, lookAt, hitem, thenMatch, andThen] at h
  · exact .inl rfl
  · refine .inr ⟨t, rfl, fun haccept => ⟨fuel, ?_⟩⟩
    simpa [takeAt, lookAt, hitem, thenMatch, andThen, haccept] using h

theorem Fails.require {condition : Bool} {next : Unit → Branch K V T F α}
    (h : ((Branch.require condition).bind next).Fails grammar items pos)
    (hcondition : condition = true) :
    (next ()).Fails grammar items pos := by
  rw [hcondition] at h
  exact h

theorem Fails.ofOption {value : Option β} {next : β → Branch K V T F α}
    (h : ((Branch.ofOption value).bind next).Fails grammar items pos) {b : β}
    (hvalue : value = some b) :
    (next b).Fails grammar items pos := by
  rw [hvalue] at h
  exact h

end Branch

theorem firstOutcome_eq_none {run : β → Nat → Outcome F E (Option α)} {start : Nat} {leaky : Bool} :
    ∀ {branches cursor}, (firstOutcome run start leaky branches cursor).answer = .ok none →
      ∀ branch ∈ branches, (run branch start).answer = .ok none
  | [], _, _ => by simp
  | branch :: branches, cursor, h => by
    rw [firstOutcome] at h
    rcases ha : (run branch start).answer with fault | _ | a
    · simp [andThen_error ha] at h
    · rw [andThen_ok ha] at h
      exact List.forall_mem_cons.2 ⟨ha, firstOutcome_eq_none h⟩
    · simp [andThen_ok ha, here] at h

/-- No branch matches where the rule does not, if it is not grown. -/
theorem Matches.branches_fail (h : Matches (evaluate grammar items) key pos none stop)
    (hplain : grammar.strategy key ≠ .grown) :
    ∀ branch ∈ (grammar.production key).branches, branch.Fails grammar items pos := by
  obtain ⟨fuel, hfuel⟩ := (h.and (eventually_gt_atTop 0)).exists
  obtain ⟨fuel, rfl⟩ := Nat.exists_eq_succ_of_ne_zero hfuel.2.ne'
  obtain ⟨hanswer, -⟩ := hfuel.1
  rw [evaluate, if_neg hplain] at hanswer
  exact fun branch hb => ⟨fuel, firstOutcome_eq_none hanswer branch hb⟩

/-- A grown rule that has a match keeps one. -/
theorem grownFrom_ne_none {body : Memo α → Outcome F E (Option α)} {start : Nat} (rounds : Nat)
    {best : Memo α} (hbest : best.result.isSome = true) :
    (grownFrom body start rounds best).answer ≠ .ok none := fun h =>
  absurd (grownFrom_ensures (P := fun memo => memo.result.isSome = true)
    (fun _ _ _ _ hsome _ => hsome)
    rounds best hbest none h) (by simp)

/-! ### Chains -/

variable {base : K} {links : List (Link V key base)} {first : V base → V key}

theorem IsChainRule.seeded_base (h : IsChainRule grammar links first) (seed : Memo (V key))
    (fuel : Nat) :
    seeded key pos seed (evaluate grammar items fuel) base pos =
      evaluate grammar items fuel base pos := by
  rw [seeded, dif_neg fun heq => h.base_ne heq.1]

/-- The first round of growth is the operand alone. -/
theorem IsChainRule.first_round (h : IsChainRule grammar links first)
    (hmoves : ∀ {b stop}, Matches (evaluate grammar items) base pos (some b) stop → pos < stop)
    (fuel : Nat) :
    ((grammar.production key).outcome items (seeded key pos { result := none, stop := pos }
      (evaluate grammar items fuel)) fuel pos).Ensures fun result stop =>
        ∀ a, result = some a → pos < stop := by
  refine firstOutcome_ensures (P := fun _ stop => pos < stop) _ _ (fun branch hbranch => ?_) pos
  rw [h.branches, chainBranches] at hbranch
  rcases List.mem_append.1 hbranch with hlink | hlast
  · obtain ⟨link, -, rfl⟩ := List.mem_map.1 hlink
    refine ensures_thenMatch.2 ?_
    rw [seeded, dif_pos ⟨rfl, rfl⟩]
    exact ensures_here.2 (by simp)
  · obtain rfl := List.mem_singleton.1 hlast
    refine ensures_thenMatch.2 fun result hresult => ?_
    rw [h.seeded_base] at hresult ⊢
    cases result with
    | none => simp
    | some b => exact ensures_here.2 fun _ _ => hmoves (matches_of_answer hresult)

/-- Where a rule for chains does not match its operand does not. -/
theorem IsChainRule.base_none (h : IsChainRule grammar links first)
    (hmoves : ∀ {b stop}, Matches (evaluate grammar items) base pos (some b) stop → pos < stop)
    (hnone : Matches (evaluate grammar items) key pos none stop) :
    ∃ stop', Matches (evaluate grammar items) base pos none stop' := by
  obtain ⟨fuel, ⟨hanswer, -⟩, hfuel⟩ := (hnone.and (eventually_gt_atTop 1)).exists
  obtain ⟨rounds, rfl⟩ := Nat.exists_eq_add_of_le' hfuel
  rw [evaluate, if_pos h.strategy, grownFrom] at hanswer
  have hround := h.first_round hmoves (rounds + 1)
  generalize hdef : (grammar.production key).outcome items
    (seeded key pos { result := none, stop := pos }
    (evaluate grammar items (rounds + 1))) (rounds + 1) pos = round at hanswer hround
  rcases hresult : round.answer with fault | _ | a
  · simp [andThen_error hresult] at hanswer
  · have hlast : (Branch.call base fun b => Branch.done (first b) : Branch K V T F (V key)) ∈
        (grammar.production key).branches := by simp [h.branches, chainBranches]
    rw [← hdef] at hresult
    rcases Outcome.thenMatch_eq_none (firstOutcome_eq_none hresult _ hlast) with hbase |
      ⟨b, -, hdone⟩
    · rw [h.seeded_base] at hbase
      exact ⟨_, matches_of_answer hbase⟩
    · simp [Branch.outcome, here] at hdone
  · have hlt : pos < round.stop := hround _ hresult a rfl
    rw [andThen_ok hresult, if_pos ⟨rfl, hlt⟩] at hanswer
    exact absurd hanswer (grownFrom_ne_none _ rfl)

end

end OpticScript.Packrat
