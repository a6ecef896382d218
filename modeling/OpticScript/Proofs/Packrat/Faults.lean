import OpticScript.Proofs.Packrat.Chains

/-!
# Faults with enough fuel

How to show that a rule ends the parse at a position, as `Matches` shows what it comes to. With all
but finitely many amounts of fuel it ends with the same fault (`Faults`) : a branch does
(`Branch.Faults`) if what it comes to first is an error in the place of an item, a complaint, or a
call of a rule that does, and the branches of a rule do (`Branches.Faults`) if one of them does and
those before it fail. A grown rule ends with the fault of its first round.
-/

namespace OpticScript.Packrat

open Filter Outcome

variable {K : Type} {V : K → Type} {T F E α β : Type}

/-- A rule ends with this fault if there is enough fuel and it is called in the given way. -/
def Faults (callee : Nat → (key : K) → Nat → Outcome F E (Option (V key))) (key : K) (pos : Nat)
    (fault : Fault F E) : Prop :=
  ∀ᶠ fuel in atTop, (callee fuel key pos).answer = .error fault

/-- What is left of a branch ends with this fault if there is enough fuel. -/
def Branch.Faults (items : Nat → Except E (Option T))
    (callee : Nat → (key : K) → Nat → Outcome F E (Option (V key))) (branch : Branch K V T F α)
    (pos : Nat) (fault : Fault F E) : Prop :=
  ∀ᶠ fuel in atTop, (branch.outcome items (callee fuel) fuel pos).answer = .error fault

/-- The first of the branches that does not fail ends with this fault if there is enough fuel. -/
def Branches.Faults (items : Nat → Except E (Option T))
    (callee : Nat → (key : K) → Nat → Outcome F E (Option (V key)))
    (branches : List (Branch K V T F α)) (start : Nat) (fault : Fault F E) : Prop :=
  ∀ᶠ fuel in atTop, ∀ leaky cursor,
    (firstOutcome (Branch.outcome items (callee fuel) fuel) start leaky branches cursor).answer =
      .error fault

section

variable {items : Nat → Except E (Option T)}
  {callee : Nat → (key : K) → Nat → Outcome F E (Option (V key))} {key : K} {pos mid : Nat}
  {fault : Fault F E} {e : E} {t : T}

theorem Outcome.answer_andThen {o : Outcome F E α} {next : α → Nat → Outcome F E β} {a : α}
    (h : o.ComesTo a pos) : (o.andThen next).answer = (next a pos).answer := by
  obtain ⟨hanswer, rfl⟩ := h
  rw [andThen_ok hanswer]

theorem Outcome.answer_andThen_error {o : Outcome F E α} {next : α → Nat → Outcome F E β}
    (h : o.answer = .error fault) : (o.andThen next).answer = .error fault := by
  rw [andThen_error h]

namespace Branch

theorem faults_raise (complaint : F) (pos : Nat) :
    (raise complaint : Branch K V T F α).Faults items callee pos (.complaint complaint) :=
  .of_forall fun _ => rfl

theorem faults_take_error {accept : T → Bool} {next : T → Branch K V T F α}
    (h : items pos = .error e) : (take accept next).Faults items callee pos (.item e) := by
  refine .of_forall fun fuel => answer_andThen_error (answer_andThen_error ?_)
  rw [lookAt, h]

theorem faults_look_error {next : T → Branch K V T F α} (h : items pos = .error e) :
    (look next).Faults items callee pos (.item e) := by
  refine .of_forall fun fuel => answer_andThen_error ?_
  rw [lookAt, h]

theorem faults_call {next : V key → Branch K V T F α} (h : Packrat.Faults callee key pos fault) :
    (call key next).Faults items callee pos fault :=
  h.mono fun _ h => answer_andThen_error h

/-- A rule matches, and what comes after it ends with a fault. -/
theorem faults_call_next {next : V key → Branch K V T F α} {a : V key}
    (hcall : Packrat.Matches callee key pos (some a) mid)
    (h : (next a).Faults items callee mid fault) :
    (call key next).Faults items callee pos fault := by
  filter_upwards [hcall, h] with fuel hcall h
  exact (answer_andThen hcall).trans h

end Branch

namespace Branches

variable {branch : Branch K V T F α} {branches : List (Branch K V T F α)}

theorem faults_head (h : branch.Faults items callee pos fault) :
    Faults items callee (branch :: branches) pos fault :=
  h.mono fun _ h _ _ => answer_andThen_error h

theorem faults_tail (hbranch : branch.Matches items callee pos none mid)
    (h : Faults items callee branches pos fault) :
    Faults items callee (branch :: branches) pos fault := by
  filter_upwards [hbranch, h] with fuel hbranch h leaky cursor
  exact (answer_andThen hbranch).trans (h leaky mid)

/-- The first branches fail, and one of the others ends with a fault. -/
theorem faults_append {before : List (Branch K V T F α)}
    (hbefore : ∀ branch ∈ before, ∃ mid, branch.Matches items callee pos none mid)
    (h : Faults items callee branches pos fault) :
    Faults items callee (before ++ branches) pos fault := by
  induction before with
  | nil => exact h
  | cons branch before ih =>
    obtain ⟨⟨mid, hbranch⟩, hbefore⟩ := List.forall_mem_cons.1 hbefore
    exact faults_tail hbranch (ih hbefore)

end Branches

end

/-! ## Rules -/

section

variable [DecidableEq K] {grammar : Grammar K V T F} {items : Nat → Except E (Option T)}
  {key base : K} {pos : Nat} {fault : Fault F E}

theorem faults_of_branches (hplain : grammar.strategy key ≠ .grown)
    (h : Branches.Faults items (evaluate grammar items) (grammar.production key).branches
      pos fault) :
    Faults (evaluate grammar items) key pos fault := by
  refine eventually_of_pred (h.mono fun fuel h => ?_)
  rw [evaluate, if_neg hplain, Production.outcome]
  exact h _ pos

/-- A grown rule ends with the fault of its first round, in which it does not match itself. -/
theorem faults_of_seeded (hgrown : grammar.strategy key = .grown)
    (h : Branches.Faults items (seededWith grammar items key pos { result := none, stop := pos })
      (grammar.production key).branches pos fault) :
    Faults (evaluate grammar items) key pos fault := by
  refine eventually_of_pred ?_
  filter_upwards [h, eventually_ge_atTop 1] with fuel h hfuel
  obtain ⟨rounds, rfl⟩ := Nat.exists_eq_succ_of_ne_zero (show fuel ≠ 0 by omega)
  rw [evaluate, if_pos hgrown, grownFrom]
  exact answer_andThen_error (h _ pos)

theorem faults_unseeded {seed : Memo (V key)} {other : K} {start : Nat}
    (hother : key = other → start ≠ pos) (h : Faults (evaluate grammar items) other pos fault) :
    Faults (seededWith grammar items key start seed) other pos fault := by
  refine h.mono fun fuel h => ?_
  rwa [seededWith, seeded, dif_neg fun hseed => hother hseed.1 hseed.2]

/-- A rule for chains ends with the fault of its first operand. -/
theorem IsChainRule.faults {links : List (Link V key base)} {first : V base → V key}
    (h : IsChainRule grammar links first) (hbase : Faults (evaluate grammar items) base pos fault) :
    Faults (evaluate grammar items) key pos fault := by
  refine faults_of_seeded h.strategy ?_
  rw [h.branches, chainBranches]
  refine Branches.faults_append (List.forall_mem_map.2 fun link _ => ⟨pos, ?_⟩)
    (Branches.faults_head
      (Branch.faults_call (faults_unseeded (fun heq => absurd heq h.base_ne) hbase)))
  exact Branch.matches_call_none (matches_seed _)

end

end OpticScript.Packrat
