import OpticScript.Proofs.Packrat.Steps

/-!
# More fuel

A run with more fuel goes on where the one with less has to stop, and it does the same up to
there (`Extends`). So it does just the same if the other one comes to an end : with more fuel
a rule gives the same answer, and the parse after it is the same, its table and its feed
included (`call_extends`). Nothing is asked of the grammar.
-/

set_option linter.unusedSectionVars false

namespace OpticScript.Packrat

variable {K : Type} [DecidableEq K] {V W : K → Type} {T F E S α β : Type}

/-- The second run is the first one, unless that one has run out of fuel. -/
def Extends (r r' : Except (Halt E) α × State K W S) : Prop :=
  r.1 ≠ .error .outOfFuel → r' = r

section

variable {r r' : Except (Halt E) α × State K W S}

theorem Extends.refl (r : Except (Halt E) α × State K W S) : Extends r r := fun _ => rfl

theorem extends_outOfFuel (s : State K W S) (r' : Except (Halt E) α × State K W S) :
    Extends (.error .outOfFuel, s) r' :=
  fun h => absurd rfl h

theorem Extends.andThen {next next' : α → State K W S → Except (Halt E) β × State K W S}
    (h : Extends r r') (hnext : ∀ a s, Extends (next a s) (next' a s)) :
    Extends (Step.andThen r next) (Step.andThen r' next') := by
  intro hend
  obtain ⟨halt | a, s⟩ := r
  · have hend : (Except.error halt : Except (Halt E) α) ≠ .error .outOfFuel := by
      rintro ⟨⟩
      exact hend rfl
    rw [h hend]
    rfl
  · rw [h (by simp)]
    exact hnext a s hend

theorem Extends.thenMatch {r r' : Except (Halt E) (Option α) × State K W S}
    {next next' : α → State K W S → Except (Halt E) (Option β) × State K W S}
    (h : Extends r r') (hnext : ∀ a s, Extends (next a s) (next' a s)) :
    Extends (Step.thenMatch r next) (Step.thenMatch r' next') := by
  refine h.andThen fun result s => ?_
  cases result with
  | none => exact .refl _
  | some a => exact hnext a s

/-- What is done with the answer and the parse does not need fuel. -/
theorem Extends.map (h : Extends r r')
    (change : Except (Halt E) α → State K W S → State K W S) :
    Extends (r.1, change r.1 r.2) (r'.1, change r'.1 r'.2) :=
  fun hend => by rw [h hend]

end

section

variable {feed : Feed K T F E S} {rounds rounds' : Nat}

theorem repeatedly_extends {callee callee' : Recognizer K W E S α}
    (hcallee : ∀ s, Extends (callee s) (callee' s)) :
    ∀ {rounds rounds' : Nat}, rounds ≤ rounds' → ∀ s,
      Extends (repeatedly callee rounds s) (repeatedly callee' rounds' s)
  | 0, _, _, s => extends_outOfFuel s _
  | rounds + 1, 0, h, _ => absurd h (by omega)
  | rounds + 1, rounds' + 1, h, s => by
    rw [repeatedly_succ, repeatedly_succ]
    refine (hcallee s).andThen fun result s' => ?_
    cases result with
    | none => exact .refl _
    | some a =>
      dsimp only
      split
      · exact .refl _
      · exact (repeatedly_extends hcallee (Nat.le_of_succ_le_succ h) s').andThen fun _ _ => .refl _

theorem Branch.run_extends {callee callee' : (key : K) → Recognizer K W E S (V key)}
    (hcallee : ∀ key s, Extends (callee key s) (callee' key s)) (h : rounds ≤ rounds')
    (branch : Branch K V T F α) (s : State K W S) :
    Extends (branch.run feed callee rounds s) (branch.run feed callee' rounds' s) := by
  induction branch generalizing s with
  | done a => exact .refl _
  | fail => exact .refl _
  | raise complaint => exact .refl _
  | take accept next ih =>
    rw [run_take, run_take]
    exact (Extends.refl _).thenMatch ih
  | look next ih =>
    rw [run_look, run_look]
    exact (Extends.refl _).thenMatch ih
  | call key next ih =>
    rw [run_call, run_call]
    exact (hcallee key s).thenMatch ih
  | maybe key ahead next ih =>
    rw [run_maybe, run_maybe]
    refine (hcallee key s).andThen fun result s' => ?_
    cases result with
    | none => exact ih none _
    | some a =>
      refine (Extends.refl (passes feed ahead s')).andThen fun passed s'' => ?_
      cases passed with
      | true => exact ih (some a) s''
      | false => exact ih none _
  | star key next ih =>
    rw [run_star, run_star]
    exact (repeatedly_extends (hcallee key) h s).andThen ih

theorem firstMatch_extends {run run' : Branch K V T F α → Recognizer K W E S α}
    (hrun : ∀ branch s, Extends (run branch s) (run' branch s)) (start : Nat) (leaky : Bool)
    (branches : List (Branch K V T F α)) (s : State K W S) :
    Extends (firstMatch run start leaky branches s) (firstMatch run' start leaky branches s) := by
  induction branches generalizing s with
  | nil => exact .refl _
  | cons branch branches ih =>
    rw [firstMatch_cons, firstMatch_cons]
    refine (hrun branch _).andThen fun result s' => ?_
    cases result with
    | none => exact ih s'
    | some a => exact .refl _

theorem Production.apply_extends {wrapping : Wrapping K V W}
    {callee callee' : (key : K) → Recognizer K W E S (W key)}
    (hcallee : ∀ key s, Extends (callee key s) (callee' key s)) (h : rounds ≤ rounds') (key : K)
    (production : Production K V T F (V key)) (s : State K W S) :
    Extends (production.apply feed wrapping callee rounds key s)
      (production.apply feed wrapping callee' rounds' key s) := by
  rw [apply_eq, apply_eq]
  refine (firstMatch_extends (fun branch => branch.run_extends (fun key s => ?_) h) _ _ _ _).andThen
    fun _ _ => .refl _
  rw [expect_eq, expect_eq]
  exact (hcallee key s).andThen fun _ _ => .refl _

theorem grow_extends {key : K} {body body' : Recognizer K W E S (W key)}
    (hbody : ∀ s, Extends (body s) (body' s)) (start : Nat) :
    ∀ {rounds rounds' : Nat}, rounds ≤ rounds' → ∀ best s,
      Extends (grow key body start rounds best s) (grow key body' start rounds' best s)
  | 0, _, _, _, s => extends_outOfFuel s _
  | rounds + 1, 0, h, _, _ => absurd h (by omega)
  | rounds + 1, rounds' + 1, h, best, s => by
    rw [grow_succ, grow_succ]
    refine (hbody _).andThen fun result s' => ?_
    split
    · exact grow_extends hbody start (Nat.le_of_succ_le_succ h) _ _
    · exact .refl _

theorem runRule_extends {grammar : Grammar K V T F} {key : K}
    {body body' : Recognizer K W E S (W key)} (hbody : ∀ s, Extends (body s) (body' s))
    (h : rounds ≤ rounds') (s : State K W S) :
    Extends (runRule grammar key rounds body s) (runRule grammar key rounds' body' s) := by
  cases runRule_cases grammar key s with
  | plain hplain =>
    rw [runRule_of_plain body rounds hplain, runRule_of_plain body' rounds' hplain]
    exact hbody s
  | memo hmemo hget =>
    rw [runRule_of_memo body rounds hmemo hget, runRule_of_memo body' rounds' hmemo hget]
    exact .refl _
  | cached hcached hget =>
    rw [runRule_of_cached body rounds hcached hget, runRule_of_cached body' rounds' hcached hget]
    exact (hbody s).andThen fun _ _ => .refl _
  | grown hgrown hget =>
    rw [runRule_of_grown body rounds hgrown hget, runRule_of_grown body' rounds' hgrown hget]
    exact grow_extends hbody _ h _ _

/-- More fuel makes no difference to a rule that comes to an end. -/
theorem call_extends (grammar : Grammar K V T F) (wrapping : Wrapping K V W)
    (feed : Feed K T F E S) {fuel fuel' : Nat} (h : fuel ≤ fuel') (key : K) (s : State K W S) :
    Extends (call grammar wrapping feed fuel key s) (call grammar wrapping feed fuel' key s) := by
  induction fuel generalizing fuel' key s with
  | zero => exact extends_outOfFuel s _
  | succ fuel ih =>
    obtain ⟨fuel', rfl⟩ : ∃ n, fuel' = n + 1 := ⟨fuel' - 1, by omega⟩
    have hle : fuel ≤ fuel' := Nat.le_of_succ_le_succ h
    refine Extends.map (runRule_extends (fun s => ?_) hle _) fun answer s =>
      s.observe feed (outcomeEvent key s.cursor answer)
    exact Production.apply_extends (ih hle) hle key _ s

end

end OpticScript.Packrat
