import OpticScript.Proofs.Packrat.Steps

/-!
# Memos last

A memo is never taken out of the table : whatever a parse does, and whether it comes to an end
or to an error, a rule that has a memo at a position has one afterwards (`State.Remembers`,
`call_remembers`). It may be another one, since a grown rule puts a better one in its place.

A grown rule begins with a memo of failure. So if an error ends it, the memo that it had at the
time stays (`call_grown_memo`), and the rule is not run there any more : it is answered from the
memo (`call_of_memo`).
-/

set_option linter.unusedSectionVars false

namespace OpticScript.Packrat

open Step

variable {K : Type} [DecidableEq K] {V W : K → Type} {T F E S α β : Type}

/-- Every rule that has a memo at a position before has one after. -/
def State.Remembers (before after : State K W S) : Prop :=
  ∀ key start, (before.table.get? key start).isSome → (after.table.get? key start).isSome

namespace State

variable {s s' s'' : State K W S}

theorem Remembers.of_table_eq (h : s'.table = s.table) : s.Remembers s' := by
  intro key start hsome
  rwa [h]

theorem Remembers.refl (s : State K W S) : s.Remembers s := .of_table_eq rfl

theorem Remembers.trans (h : s.Remembers s') (h' : s'.Remembers s'') : s.Remembers s'' :=
  fun key start hsome => h' key start (h key start hsome)

theorem remembers_record (s : State K W S) (key : K) (start : Nat) (memo : Memo (W key)) :
    s.Remembers (s.record key start memo) := by
  intro other pos hsome
  by_cases hsame : other = key ∧ pos = start
  · obtain ⟨rfl, rfl⟩ := hsame
    simp [record]
  · have hne : other ≠ key ∨ pos ≠ start := Decidable.not_and_iff_not_or_not.1 hsame
    simpa [record, Table.get?_insert_of_ne _ hne] using hsome

end State

open State

section

variable {feed : Feed K T F E S} {s : State K W S}

theorem remembers_andThen {r : Except (Halt E) α × State K W S}
    {next : α → State K W S → Except (Halt E) β × State K W S} (h : s.Remembers r.2)
    (hnext : ∀ a (s' : State K W S), s'.Remembers (next a s').2) :
    s.Remembers (andThen r next).2 := by
  obtain ⟨halt | a, s'⟩ := r
  · exact h
  · exact h.trans (hnext a s')

theorem remembers_thenMatch {r : Except (Halt E) (Option α) × State K W S}
    {next : α → State K W S → Except (Halt E) (Option β) × State K W S} (h : s.Remembers r.2)
    (hnext : ∀ a (s' : State K W S), s'.Remembers (next a s').2) :
    s.Remembers (thenMatch r next).2 := by
  refine remembers_andThen h fun result s' => ?_
  cases result with
  | none => exact .refl s'
  | some a => exact hnext a s'

theorem look_remembers (s : State K W S) : s.Remembers (look feed s).2 := by
  refine .of_table_eq ?_
  rw [look, State.item]
  rcases feed.item s.cursor s.feed with ⟨e | item, after⟩ <;> rfl

theorem take_remembers (accept : T → Bool) (s : State K W S) :
    s.Remembers (Step.take feed accept s).2 := by
  refine remembers_thenMatch (look_remembers s) fun item s' => .of_table_eq ?_
  split <;> rfl

theorem passes_remembers (test : Option (T → Bool)) (s : State K W S) :
    s.Remembers (passes feed test s).2 := by
  cases test with
  | none => exact .refl s
  | some test =>
    rw [passes_some]
    exact remembers_andThen (look_remembers s) fun _ s' => .refl s'

theorem repeatedly_remembers {callee : Recognizer K W E S α}
    (hcallee : ∀ s : State K W S, s.Remembers (callee s).2) :
    ∀ rounds (s : State K W S), s.Remembers (repeatedly callee rounds s).2
  | 0, s => .refl s
  | rounds + 1, s => by
    rw [repeatedly_succ]
    refine remembers_andThen (hcallee s) fun result s' => ?_
    cases result with
    | none => exact .refl s'
    | some a =>
      dsimp only
      split
      · exact .refl s'
      · exact remembers_andThen (repeatedly_remembers hcallee rounds s') fun _ s'' => .refl s''

theorem Branch.run_remembers {callee : (key : K) → Recognizer K W E S (V key)}
    (hcallee : ∀ key (s : State K W S), s.Remembers (callee key s).2) (rounds : Nat)
    (branch : Branch K V T F α) (s : State K W S) :
    s.Remembers (branch.run feed callee rounds s).2 := by
  induction branch generalizing s with
  | done result => exact .refl s
  | fail => exact .refl s
  | raise complaint => exact .refl s
  | take accept next ih =>
    rw [run_take]
    exact remembers_thenMatch (take_remembers accept s) ih
  | look next ih =>
    rw [run_look]
    exact remembers_thenMatch (look_remembers s) ih
  | call key next ih =>
    rw [run_call]
    exact remembers_thenMatch (hcallee key s) ih
  | maybe key ahead next ih =>
    rw [run_maybe]
    refine remembers_andThen (hcallee key s) fun result s' => ?_
    cases result with
    | none => exact ih none (s'.moveTo s.cursor)
    | some a =>
      refine remembers_andThen (passes_remembers ahead s') fun passed s'' => ?_
      cases passed with
      | true => exact ih (some a) s''
      | false => exact ih none (s''.moveTo s.cursor)
  | star key next ih =>
    rw [run_star]
    exact remembers_andThen (repeatedly_remembers (hcallee key) rounds s) ih

theorem firstMatch_remembers {run : Branch K V T F α → Recognizer K W E S α}
    (hrun : ∀ branch (s : State K W S), s.Remembers (run branch s).2) (start : Nat) (leaky : Bool)
    (branches : List (Branch K V T F α)) (s : State K W S) :
    s.Remembers (firstMatch run start leaky branches s).2 := by
  induction branches generalizing s with
  | nil => cases leaky <;> exact .refl s
  | cons branch branches ih =>
    rw [firstMatch_cons]
    refine remembers_andThen (hrun branch (s.moveTo start)) fun result s' => ?_
    cases result with
    | none => exact ih s'
    | some a => exact .refl s'

theorem Production.run_remembers {callee : (key : K) → Recognizer K W E S (V key)}
    (hcallee : ∀ key (s : State K W S), s.Remembers (callee key s).2) (rounds : Nat) (key : K)
    (production : Production K V T F α) (s : State K W S) :
    s.Remembers (production.run feed callee rounds key s).2 :=
  firstMatch_remembers (Branch.run_remembers hcallee rounds) _ _ _ (s.observe feed (.run key))

theorem expect_remembers {wrapping : Wrapping K V W} {key : K}
    {callee : Recognizer K W E S (W key)}
    (hcallee : ∀ s : State K W S, s.Remembers (callee s).2) (s : State K W S) :
    s.Remembers (expect wrapping key callee s).2 := by
  rw [expect_eq]
  exact remembers_andThen (hcallee s) fun _ s' => .refl s'

theorem Production.apply_remembers {wrapping : Wrapping K V W}
    {callee : (key : K) → Recognizer K W E S (W key)}
    (hcallee : ∀ key (s : State K W S), s.Remembers (callee key s).2) (rounds : Nat) (key : K)
    (production : Production K V T F (V key)) (s : State K W S) :
    s.Remembers (production.apply feed wrapping callee rounds key s).2 := by
  rw [apply_eq]
  exact remembers_andThen
    (run_remembers (fun key => expect_remembers (hcallee key)) rounds key production s)
    fun _ s' => .refl s'

theorem grow_remembers {key : K} {body : Recognizer K W E S (W key)}
    (hbody : ∀ s : State K W S, s.Remembers (body s).2) (start : Nat) :
    ∀ rounds best (s : State K W S), s.Remembers (grow key body start rounds best s).2
  | 0, _, s => .refl s
  | rounds + 1, best, s => by
    rw [grow_succ]
    refine remembers_andThen (hbody (s.moveTo start)) fun result s' => ?_
    split
    · exact (remembers_record s' key start _).trans
        (grow_remembers hbody start rounds _ _)
    · exact .refl s'

theorem runRule_remembers {grammar : Grammar K V T F} {key : K}
    {body : Recognizer K W E S (W key)} (hbody : ∀ s : State K W S, s.Remembers (body s).2)
    (rounds : Nat) (s : State K W S) : s.Remembers (runRule grammar key rounds body s).2 := by
  cases runRule_cases grammar key s with
  | plain h =>
    rw [runRule_of_plain body rounds h]
    exact hbody s
  | memo h hget =>
    rw [runRule_of_memo body rounds h hget]
    exact .refl s
  | cached h hget =>
    rw [runRule_of_cached body rounds h hget]
    exact remembers_andThen (hbody s) fun _ s' => remembers_record s' _ _ _
  | grown h hget =>
    rw [runRule_of_grown body rounds h hget]
    exact (remembers_record s _ _ _).trans (grow_remembers hbody _ rounds _ _)

end

section

variable {grammar : Grammar K V T F} {wrapping : Wrapping K V W} {feed : Feed K T F E S}

/-- No memo is lost, whatever the outcome of a rule is. -/
theorem call_remembers (grammar : Grammar K V T F) (wrapping : Wrapping K V W)
    (feed : Feed K T F E S) :
    ∀ fuel key (s : State K W S), s.Remembers (call grammar wrapping feed fuel key s).2
  | 0, _, s => .refl s
  | fuel + 1, key, s =>
    runRule_remembers
      (Production.apply_remembers (call_remembers grammar wrapping feed fuel) fuel key _) fuel
      (s.observe feed (.attempt key))

/-- A rule that has a memo where it is called is answered from it, and the table stays. -/
theorem call_of_memo {key : K} (hmemo : grammar.strategy key ≠ .plain) (fuel : Nat)
    {s : State K W S} {memo : Memo (W key)} (hget : s.table.get? key s.cursor = some memo) :
    (call grammar wrapping feed (fuel + 1) key s).1 = .ok memo.result ∧
      (call grammar wrapping feed (fuel + 1) key s).2.cursor = memo.stop ∧
      (call grammar wrapping feed (fuel + 1) key s).2.table = s.table := by
  have hget' : (s.observe feed (.attempt key)).table.get? key
      (s.observe feed (.attempt key)).cursor = some memo := hget
  rw [call, runRule_of_memo _ fuel hmemo hget']
  exact ⟨rfl, rfl, rfl⟩

/-- A grown rule leaves a memo where it was called, whatever its outcome is. -/
theorem call_grown_memo {key : K} (hgrown : grammar.strategy key = .grown) (fuel : Nat)
    (s : State K W S) :
    ((call grammar wrapping feed (fuel + 1) key s).2.table.get? key s.cursor).isSome := by
  let s₀ := s.observe feed (.attempt key)
  have hbody : ∀ s : State K W S, s.Remembers
      ((grammar.production key).apply feed wrapping (call grammar wrapping feed fuel)
          fuel key s).2 :=
    Production.apply_remembers (call_remembers grammar wrapping feed fuel) fuel key _
  change ((runRule grammar key fuel _ s₀).2.table.get? key s₀.cursor).isSome
  rcases hget : s₀.table.get? key s₀.cursor with _ | memo
  · rw [runRule_of_grown _ fuel hgrown hget]
    exact grow_remembers hbody s₀.cursor fuel _ _ key s₀.cursor (by simp [record])
  · rw [runRule_of_memo _ fuel (by simp [hgrown]) hget]
    simp [moveTo, hget]

end

end OpticScript.Packrat
