import OpticScript.Proofs.Packrat.Likeness
import OpticScript.Proofs.Packrat.Steps

/-!
# The engine agrees with the evaluation

The memo table does not show in the answers of a ranked grammar : a call of the engine
answers what `evaluate` says (`call_agrees`), whatever has been called before and whatever
the table holds of it. The feed is told by the number of items it has given
(`Feed.View`), and that number is the same with and without memos.

The invariant is `State.Sound` : every memo is the outcome of its rule at its position,
and the items it depends on have been looked at. While a rule is being grown its own memo
is only the best outcome so far; it is listed in `pending`. A rule at a position can only
call what stands behind all pending memos, or before them in rank (`Grammar.Ranking.Clear`), so
nothing but the rule that is being grown reads its pending memo.

The engine keeps results wrapped and the evaluation does not. They agree when every wrapped result
can be got back (`Wrapping.Lawful`) : no call inside a branch then discards a match
(`expect_agrees`).
-/

set_option linter.unusedSectionVars false

namespace OpticScript.Packrat

variable {K : Type} [DecidableEq K] {V W : K → Type} {T F E S α β γ : Type}

/-- What a feed gives. Its state is told by the number of items that it has given. -/
structure Feed.View (feed : Feed K T F E S) where
  items : Nat → Except E (Option T)
  /-- What a complaint amounts to after so many items. -/
  report : Nat → F → E
  /-- The feed has given this many items. -/
  Holds : Nat → S → Prop
  holds_observe : ∀ {n s} event, Holds n s → Holds n (feed.observe event s)
  item_eq : ∀ {n s pos}, Holds n s → pos ≤ n → (feed.item pos s).1 = items pos
  holds_item : ∀ {n s pos item}, Holds n s → pos ≤ n → items pos = .ok item →
    Holds (max n (pos + 1)) (feed.item pos s).2
  report_eq : ∀ {n s} complaint, Holds n s → feed.report complaint s = report n complaint

open Outcome Step

variable {feed : Feed K T F E S}

/-- What comes to a result of a rule, with the result wrapped. -/
abbrev Outcome.wrapped {key : K} (o : Outcome F E (Option (V key))) (wrapping : Wrapping K V W) :
    Outcome F E (Option (W key)) :=
  o.map (Option.map (wrapping.wrap key))

@[simp] theorem Outcome.wrapped_plain {key : K} (o : Outcome F E (Option (V key))) :
    o.wrapped .plain = o := by
  rcases o with ⟨fault | _ | result, stop, reach⟩ <;> rfl

/-- The memo with the result wrapped. -/
def Memo.wrapped {key : K} (memo : Memo (V key)) (wrapping : Wrapping K V W) : Memo (W key) :=
  { result := memo.result.map (wrapping.wrap key), stop := memo.stop }

/-- The memo is the outcome of the rule at the position, and depends on the first `n` items. -/
def Settled (grammar : Grammar K V T F) (wrapping : Wrapping K V W)
    (items : Nat → Except E (Option T)) (n : Nat) (key : K) (start : Nat) (memo : Memo (W key)) :
    Prop :=
  ∃ fuel reach, reach ≤ n ∧ (evaluate grammar items fuel key start).wrapped wrapping =
    { answer := .ok memo.result, stop := memo.stop, reach }

/-- A parse that has seen `n` items. Its memos are outcomes, but for the pending ones. -/
structure State.Sound (view : feed.View) (grammar : Grammar K V T F) (wrapping : Wrapping K V W)
    (pending : Table K W) (n : Nat) (s : State K W S) : Prop where
  holds : view.Holds n s.feed
  cursor_le : s.cursor ≤ n
  get?_of_pending : ∀ {key start memo}, pending.get? key start = some memo →
    s.table.get? key start = some memo ∧ memo.stop ≤ n
  settled : ∀ {key start memo}, s.table.get? key start = some memo →
    pending.get? key start = some memo ∨ Settled grammar wrapping view.items n key start memo

/-- The engine answers what the outcome says. If it had seen `n` items it has then seen
those that the outcome depends on, and its parse is sound again. -/
def Agrees (view : feed.View) (grammar : Grammar K V T F) (wrapping : Wrapping K V W)
    (pending : Table K W) (n : Nat) (o : Outcome F E α)
    (r : Except (Halt E) α × State K W S) : Prop :=
  match o.answer with
  | .ok a => r.1 = .ok a ∧ r.2.cursor = o.stop ∧
    r.2.Sound view grammar wrapping pending (max n o.reach)
  | .error (.item e) => r.1 = .error (.fatal e) ∧ r.2.cursor = o.stop
  | .error (.complaint c) =>
    r.1 = .error (.fatal (view.report (max n o.reach) c)) ∧ r.2.cursor = o.stop
  | .error .outOfFuel => True

section

variable {view : feed.View} {grammar : Grammar K V T F} {wrapping : Wrapping K V W}
  {pending : Table K W} {n : Nat}

theorem Settled.mono {n' : Nat} {key : K} {start : Nat} {memo : Memo (W key)}
    (h : Settled grammar wrapping view.items n key start memo) (hn : n ≤ n') :
    Settled grammar wrapping view.items n' key start memo := by
  obtain ⟨fuel, reach, hr, he⟩ := h
  exact ⟨fuel, reach, hr.trans hn, he⟩

namespace State.Sound

theorem moveTo {s : State K W S} (h : s.Sound view grammar wrapping pending n) {pos : Nat}
    (hp : pos ≤ n) : (s.moveTo pos).Sound view grammar wrapping pending n :=
  { h with cursor_le := hp }

theorem observe {s : State K W S} (h : s.Sound view grammar wrapping pending n) (event : Event K) :
    (s.observe feed event).Sound view grammar wrapping pending n :=
  { h with holds := view.holds_observe event h.holds }

end State.Sound

theorem agrees_ok {s : State K W S} (h : s.Sound view grammar wrapping pending n) (a : α) :
    Agrees view grammar wrapping pending n (here a s.cursor) (.ok a, s) := by
  refine ⟨rfl, rfl, ?_⟩
  rwa [here, Nat.max_eq_left h.cursor_le]

/-- One part after the other, with something made of the answer of the first one. The first one
may have more memos pending. -/
theorem Agrees.map_andThen {pending' : Table K W} {f : α → γ} {o : Outcome F E α}
    {r : Except (Halt E) γ × State K W S} {next : α → Nat → Outcome F E β}
    {next' : γ → State K W S → Except (Halt E) β × State K W S}
    (h : Agrees view grammar wrapping pending' n (o.map f) r)
    (hn : ∀ a s, o.answer = .ok a → s.cursor = o.stop →
      s.Sound view grammar wrapping pending' (max n o.reach) →
      Agrees view grammar wrapping pending (max n o.reach) (next a s.cursor) (next' (f a) s)) :
    Agrees view grammar wrapping pending n (o.andThen next) (Step.andThen r next') := by
  obtain ⟨answer, s⟩ := r
  unfold Agrees at h
  cases ha : o.answer with
  | error fault =>
    rw [map_answer_error.2 ha] at h
    rw [andThen_error ha]
    cases fault with
    | outOfFuel => trivial
    | item e =>
      obtain ⟨rfl, hs⟩ := h
      exact ⟨rfl, hs⟩
    | complaint c =>
      obtain ⟨rfl, hs⟩ := h
      exact ⟨rfl, hs⟩
  | ok a =>
    rw [map_answer_ok.2 ⟨a, ha, rfl⟩] at h
    obtain ⟨rfl, hs, hsound⟩ := h
    dsimp only [map_stop] at hs
    have := hn a s ha hs hsound
    rw [hs] at this
    rw [andThen_ok ha]
    unfold Agrees at this ⊢
    rwa [Nat.max_assoc] at this

/-- One part after the other. -/
theorem Agrees.andThen {pending' : Table K W} {o : Outcome F E α}
    {r : Except (Halt E) α × State K W S} {next : α → Nat → Outcome F E β}
    {next' : α → State K W S → Except (Halt E) β × State K W S}
    (h : Agrees view grammar wrapping pending' n o r)
    (hn : ∀ a s, o.answer = .ok a → s.cursor = o.stop →
      s.Sound view grammar wrapping pending' (max n o.reach) →
      Agrees view grammar wrapping pending (max n o.reach) (next a s.cursor) (next' a s)) :
    Agrees view grammar wrapping pending n (o.andThen next) (Step.andThen r next') :=
  map_andThen (f := id) (by rwa [map_id]) hn

theorem Agrees.thenMatch {o : Outcome F E (Option α)}
    {r : Except (Halt E) (Option α) × State K W S} {next : α → Nat → Outcome F E (Option β)}
    {next' : α → State K W S → Except (Halt E) (Option β) × State K W S}
    (h : Agrees view grammar wrapping pending n o r)
    (hn : ∀ a s, o.answer = .ok (some a) → s.cursor = o.stop →
      s.Sound view grammar wrapping pending (max n o.reach) →
      Agrees view grammar wrapping pending (max n o.reach) (next a s.cursor) (next' a s)) :
    Agrees view grammar wrapping pending n (o.thenMatch next) (Step.thenMatch r next') := by
  refine h.andThen fun result s ha hs hsound => ?_
  cases result with
  | none => exact agrees_ok hsound none
  | some a => exact hn a s ha hs hsound

/-- Something made of the answer, with a change of the parse that leaves the cursor where it
is. -/
theorem Agrees.map_change {pending' : Table K W} {f : α → β} {o : Outcome F E α}
    {r : Except (Halt E) α × State K W S} {change : α → State K W S → State K W S}
    (h : Agrees view grammar wrapping pending' n o r)
    (hchange : ∀ a s, o.answer = .ok a → s.cursor = o.stop →
      s.Sound view grammar wrapping pending' (max n o.reach) →
      (change a s).cursor = s.cursor ∧
        (change a s).Sound view grammar wrapping pending (max n o.reach)) :
    Agrees view grammar wrapping pending n (o.map f)
      (Step.andThen r fun a s => (.ok (f a), change a s)) := by
  obtain ⟨answer, s⟩ := r
  unfold Agrees at h ⊢
  cases ha : o.answer with
  | error fault =>
    rw [ha] at h
    rw [map_answer_error.2 ha]
    cases fault with
    | outOfFuel => trivial
    | item e =>
      obtain ⟨rfl, hs⟩ := h
      exact ⟨rfl, hs⟩
    | complaint c =>
      obtain ⟨rfl, hs⟩ := h
      exact ⟨rfl, hs⟩
  | ok a =>
    rw [ha] at h
    rw [map_answer_ok.2 ⟨a, ha, rfl⟩]
    obtain ⟨rfl, hs, hsound⟩ := h
    obtain ⟨hc, hsound⟩ := hchange a s ha hs hsound
    exact ⟨rfl, hc.trans hs, hsound⟩

/-- A change of the parse that leaves the cursor where it is does not change the answer. -/
theorem Agrees.andThen_ok {pending' : Table K W} {o : Outcome F E α}
    {r : Except (Halt E) α × State K W S} {change : α → State K W S → State K W S}
    (h : Agrees view grammar wrapping pending' n o r)
    (hchange : ∀ a s, o.answer = .ok a → s.cursor = o.stop →
      s.Sound view grammar wrapping pending' (max n o.reach) →
      (change a s).cursor = s.cursor ∧
        (change a s).Sound view grammar wrapping pending (max n o.reach)) :
    Agrees view grammar wrapping pending n o
      (Step.andThen r fun a s => (.ok a, change a s)) := by
  simpa using h.map_change (f := id) hchange

/-- Something made of the answer. -/
theorem Agrees.map {f : α → β} {o : Outcome F E α} {r : Except (Halt E) α × State K W S}
    (h : Agrees view grammar wrapping pending n o r) :
    Agrees view grammar wrapping pending n (o.map f)
      (Step.andThen r fun a s => (.ok (f a), s)) :=
  h.map_change fun _ _ _ _ hsound => ⟨rfl, hsound⟩

theorem Agrees.observe {o : Outcome F E α} {r : Except (Halt E) α × State K W S}
    (h : Agrees view grammar wrapping pending n o r) (event : Event K) :
    Agrees view grammar wrapping pending n o (r.1, r.2.observe feed event) := by
  unfold Agrees at h ⊢
  cases ha : o.answer with
  | error fault =>
    rw [ha] at h
    cases fault with
    | outOfFuel => trivial
    | item e => exact h
    | complaint c => exact h
  | ok a =>
    rw [ha] at h
    exact ⟨h.1, h.2.1, h.2.2.observe event⟩

/-- Two parses that answer what one outcome says answer alike, whatever their grammars and
their tables are. -/
theorem Agrees.eq_of_finishes {grammar' : Grammar K V T F} {pending' : Table K W}
    {o : Outcome F E α} {r r' : Except (Halt E) α × State K W S}
    (h : Agrees view grammar wrapping pending n o r)
    (h' : Agrees view grammar' wrapping pending' n o r') (hf : o.Finishes) :
    r'.1 = r.1 ∧ r'.2.cursor = r.2.cursor ∧ r.1 ≠ .error .outOfFuel ∧
      ∀ a, r.1 = .ok a → r.2.Sound view grammar wrapping pending (max n o.reach) ∧
        r'.2.Sound view grammar' wrapping pending' (max n o.reach) := by
  unfold Agrees at h h'
  rcases ho : o.answer with (e | c | _) | a
  · rw [ho] at h h'
    exact ⟨h'.1.trans h.1.symm, h'.2.trans h.2.symm, by simp [h.1], by simp [h.1]⟩
  · rw [ho] at h h'
    exact ⟨h'.1.trans h.1.symm, h'.2.trans h.2.symm, by simp [h.1], by simp [h.1]⟩
  · exact absurd ho hf
  · rw [ho] at h h'
    exact ⟨h'.1.trans h.1.symm, h'.2.1.trans h.2.1.symm, by simp [h.1],
      fun _ _ => ⟨h.2.2, h'.2.2⟩⟩

/-! ## Branches -/

theorem look_agrees {s : State K W S} (h : s.Sound view grammar wrapping pending n) :
    Agrees view grammar wrapping pending n (lookAt view.items s.cursor) (Step.look feed s) := by
  have hi := view.item_eq h.holds h.cursor_le
  unfold lookAt Step.look State.item
  rcases hf : feed.item s.cursor s.feed with ⟨answer, after⟩
  rw [hf] at hi
  subst hi
  cases hi : view.items s.cursor with
  | error e => exact ⟨rfl, rfl⟩
  | ok item =>
    have hholds := view.holds_item h.holds h.cursor_le hi
    rw [hf] at hholds
    refine ⟨rfl, rfl, ?_⟩
    exact {
      holds := hholds
      cursor_le := h.cursor_le.trans (Nat.le_max_left _ _)
      get?_of_pending := fun hp =>
        ⟨(h.get?_of_pending hp).1, (h.get?_of_pending hp).2.trans (Nat.le_max_left _ _)⟩
      settled := fun ht => (h.settled ht).imp_right fun hset => hset.mono (Nat.le_max_left _ _) }

theorem take_agrees {s : State K W S} (h : s.Sound view grammar wrapping pending n)
    (accept : T → Bool) : Agrees view grammar wrapping pending n (takeAt view.items accept s.cursor)
      (Step.take feed accept s) := by
  refine (look_agrees h).thenMatch fun item s' ha hs hsound => ?_
  split
  · have hreach : s'.cursor + 1 ≤ max n (lookAt (F := F) view.items s.cursor).reach := by
      have := (lookAt_ensures (F := F) view.items s.cursor _ ha).2
      have : (lookAt (F := F) view.items s.cursor).reach = s.cursor + 1 := by
        unfold lookAt
        split <;> rfl
      omega
    have := hsound.moveTo hreach
    refine ⟨rfl, rfl, ?_⟩
    rwa [Nat.max_eq_left hreach]
  · exact agrees_ok hsound none

theorem passes_agrees {s : State K W S} (h : s.Sound view grammar wrapping pending n)
    (ahead : Option (T → Bool)) :
    Agrees view grammar wrapping pending n (passesAt view.items s.cursor ahead)
      (passes feed ahead s) := by
  cases ahead with
  | none => exact agrees_ok h true
  | some test =>
    rw [passes_some]
    exact (look_agrees h).andThen fun item s' _ _ hsound => agrees_ok hsound _

theorem repeatedly_agrees {callee : Recognizer K W E S α} {outcome : Nat → Outcome F E (Option α)}
    (start : Nat) (hwithin : ∀ pos, (outcome pos).Within pos)
    (hcallee : ∀ n s, start ≤ s.cursor → s.Sound view grammar wrapping pending n →
      Agrees view grammar wrapping pending n (outcome s.cursor) (callee s)) :
    ∀ rounds n s, start ≤ s.cursor → s.Sound view grammar wrapping pending n →
      Agrees view grammar wrapping pending n (repeated outcome rounds s.cursor)
        (repeatedly callee rounds s)
  | 0, _, _, _, _ => trivial
  | rounds + 1, n, s, hpos, hs => by
    rw [repeatedly_succ, repeated]
    refine (hcallee n s hpos hs).andThen fun result s' _ hc hsound => ?_
    cases result with
    | none => exact agrees_ok hsound []
    | some a =>
      dsimp only
      split
      · exact agrees_ok hsound [a]
      · have hle := (hwithin s.cursor).le_stop
        refine (repeatedly_agrees start hwithin hcallee rounds _ s' (by omega) hsound).andThen ?_
        exact fun results s'' _ _ hsound => agrees_ok hsound (a :: results)

theorem Branch.run_agrees {rank : K → Nat} {consumes : K → Bool} {key : K}
    {callee : (key : K) → Recognizer K W E S (V key)}
    {outcome : (key : K) → Nat → Outcome F E (Option (V key))} {start : Nat}
    (hadvances : ∀ key pos, (outcome key pos).Advances (consumes key) pos)
    (hcallee : ∀ other n s, start ≤ s.cursor →
      (start < s.cursor ∨ grammar.MayCall rank key false other) →
      s.Sound view grammar wrapping pending n →
      Agrees view grammar wrapping pending n (outcome other s.cursor) (callee other s))
    (rounds : Nat) (branch : Branch K V T F α) {moved : Bool}
    (hb : branch.Ranked grammar rank consumes key moved) {s : State K W S}
    (hs : s.Sound view grammar wrapping pending n) (hpos : start ≤ s.cursor)
    (hmoved : moved = true → start < s.cursor) :
    Agrees view grammar wrapping pending n (branch.outcome view.items outcome rounds s.cursor)
      (branch.run feed callee rounds s) := by
  induction branch generalizing moved n s with
  | done result => exact agrees_ok hs (some result)
  | fail => exact agrees_ok hs none
  | raise complaint =>
    refine ⟨?_, rfl⟩
    change _ = Except.error (Halt.fatal (view.report (max n s.cursor) complaint))
    rw [Branch.run, view.report_eq complaint hs.holds, Nat.max_eq_left hs.cursor_le]
  | take accept next ih =>
    rw [Branch.run_take, Branch.outcome]
    refine (take_agrees hs accept).thenMatch fun item s' ha hc hsound => ?_
    obtain ⟨-, -, hstop⟩ := takeAt_ensures view.items accept s.cursor _ ha item rfl
    exact ih item (hb item) hsound (by omega) fun _ => by omega
  | look next ih =>
    rw [Branch.run_look, Branch.outcome]
    refine (look_agrees hs).thenMatch fun item s' ha hc hsound => ?_
    have hstop := (lookAt_ensures view.items s.cursor _ ha).2
    have hc : s'.cursor = s.cursor := hc.trans hstop
    exact ih item (hb item) hsound (by omega) fun hm => by
      have := hmoved hm
      omega
  | call other next ih =>
    rw [Branch.run_call, Branch.outcome]
    refine (hcallee other n s hpos (hb.1.lt_or hmoved) hs).thenMatch
      fun result s' ha hc hsound => ?_
    have hstop := (hadvances other s.cursor).ensures _ ha
    rw [← hc] at hstop
    exact ih result (hb.2 result) hsound (hpos.trans hstop.1)
      (lt_stop_of_moved hpos hstop.1 hmoved fun hc => hstop.2 hc rfl)
  | maybe other ahead next ih =>
    rw [Branch.run_maybe, Branch.outcome]
    refine (hcallee other n s hpos (hb.1.lt_or hmoved) hs).andThen fun result s' ha hc hsound => ?_
    have hstop := (hadvances other s.cursor).ensures _ ha
    have hback := hsound.moveTo (hs.cursor_le.trans (Nat.le_max_left _ _))
    cases result with
    | none => exact ih none hb.2.1 hback hpos hmoved
    | some a =>
      refine (passes_agrees hsound ahead).andThen fun passed s'' _ hc' hsound => ?_
      have hle := (passesAt_within (F := F) view.items s'.cursor ahead).le_stop
      cases passed with
      | true =>
        have hle' : s'.cursor ≤ s''.cursor := hc' ▸ hle
        rw [← hc] at hstop
        exact ih (some a) (hb.2.2 a) hsound (by omega) (lt_stop_of_moved hpos
          (hstop.1.trans hle') hmoved fun hc => (hstop.2 hc rfl).trans_le hle')
      | false =>
        have hback := hsound.moveTo ((hs.cursor_le.trans (Nat.le_max_left _ _)).trans
          (Nat.le_max_left _ _))
        exact ih none hb.2.1 hback hpos hmoved
  | star other next ih =>
    rw [Branch.run_star, Branch.outcome]
    have hwithin := repeated_within (fun pos => (hadvances other pos).toWithin) rounds s.cursor
    refine (repeatedly_agrees _ (fun pos => (hadvances other pos).toWithin)
      (fun n s' hle hs' => hcallee other n s' (hpos.trans hle) ?_ hs') rounds n s
      (Nat.le_refl _) hs).andThen fun results s' _ hc hsound => ?_
    · exact (hb.1.lt_or hmoved).imp_left fun h => h.trans_le hle
    · have := hwithin.le_stop
      exact ih results (hb.2 results) hsound (by omega) fun hm => by
        have := hmoved hm
        omega

theorem firstMatch_agrees {run : Branch K V T F α → Recognizer K W E S α}
    {outcome : Branch K V T F α → Nat → Outcome F E (Option α)} {start : Nat} (leaky : Bool)
    (hwithin : ∀ branch, (outcome branch start).Within start) :
    ∀ branches, (∀ branch ∈ branches, ∀ n s, s.cursor = start →
        s.Sound view grammar wrapping pending n →
        Agrees view grammar wrapping pending n (outcome branch start) (run branch s)) →
      ∀ n s, start ≤ s.cursor → s.Sound view grammar wrapping pending n →
        Agrees view grammar wrapping pending n (firstOutcome outcome start leaky branches s.cursor)
          (firstMatch run start leaky branches s)
  | [], _, n, s, hpos, hs => by
    cases leaky with
    | true => exact agrees_ok hs none
    | false => exact agrees_ok (hs.moveTo (hpos.trans hs.cursor_le)) none
  | branch :: branches, hrun, n, s, hpos, hs => by
    rw [firstMatch_cons, firstOutcome]
    have hs := hs.moveTo (hpos.trans hs.cursor_le)
    refine (hrun branch (by simp) n _ rfl hs).andThen fun result s' _ hc hsound => ?_
    have hle := (hwithin branch).le_stop
    cases result with
    | some a => exact agrees_ok hsound (some a)
    | none =>
      exact firstMatch_agrees leaky hwithin branches (fun b hb => hrun b (by simp [hb])) _ s'
        (by omega) hsound

/-! ## Memos -/

/-- The outcome `o` is that of the rule at the position, or what is left of it when the first
`n` items have been looked at. -/
def Concludes (grammar : Grammar K V T F) (items : Nat → Except E (Option T)) (n : Nat) (key : K)
    (start : Nat) (o : Outcome F E (Option (V key))) : Prop :=
  ∃ fuel reach, reach ≤ n ∧
    evaluate grammar items fuel key start = { o with reach := max reach o.reach }

namespace State.Sound

/-- The memo of a rule that comes to an end. -/
theorem record {s : State K W S} (h : s.Sound view grammar wrapping pending n) {key : K}
    {start : Nat} {memo : Memo (W key)} (hnone : pending.get? key start = none)
    (hmemo : Settled grammar wrapping view.items n key start memo) :
    (s.record key start memo).Sound view grammar wrapping pending n where
  holds := h.holds
  cursor_le := h.cursor_le
  get?_of_pending {key' start' memo'} hp := by
    refine ⟨?_, (h.get?_of_pending hp).2⟩
    have hne : key' ≠ key ∨ start' ≠ start := by
      by_contra! heq
      obtain ⟨rfl, rfl⟩ := heq
      simp [hnone] at hp
    exact (Table.get?_insert_of_ne s.table hne memo).trans (h.get?_of_pending hp).1
  settled {key' start' memo'} ht := by
    by_cases heq : key' = key ∧ start' = start
    · obtain ⟨rfl, rfl⟩ := heq
      obtain rfl : memo = memo' := by simpa [State.record] using ht
      exact .inr hmemo
    · have hne : key' ≠ key ∨ start' ≠ start := by tauto
      exact h.settled ((Table.get?_insert_of_ne s.table hne memo).symm.trans ht)

/-- The memo of a rule that is being grown, in the place of an earlier one. -/
theorem record_pending {pending' : Table K W} {s : State K W S}
    (h : s.Sound view grammar wrapping pending' n) {key : K} {start : Nat} {memo : Memo (W key)}
    (heq : ∀ key' start', key' ≠ key ∨ start' ≠ start →
      pending'.get? key' start' = pending.get? key' start')
    (hstop : memo.stop ≤ n) :
    (s.record key start memo).Sound view grammar wrapping (pending.insert key start memo) n where
  holds := h.holds
  cursor_le := h.cursor_le
  get?_of_pending {key' start' memo'} hp := by
    by_cases hk : key' = key ∧ start' = start
    · obtain ⟨rfl, rfl⟩ := hk
      obtain rfl : memo = memo' := by simpa using hp
      exact ⟨Table.get?_insert_self _ _ _ _, hstop⟩
    · have hne : key' ≠ key ∨ start' ≠ start := by tauto
      rw [Table.get?_insert_of_ne _ hne, ← heq key' start' hne] at hp
      exact ⟨(Table.get?_insert_of_ne s.table hne memo).trans (h.get?_of_pending hp).1,
        (h.get?_of_pending hp).2⟩
  settled {key' start' memo'} ht := by
    by_cases hk : key' = key ∧ start' = start
    · obtain ⟨rfl, rfl⟩ := hk
      obtain rfl : memo = memo' := by simpa [State.record] using ht
      exact .inl (Table.get?_insert_self _ _ _ _)
    · have hne : key' ≠ key ∨ start' ≠ start := by tauto
      rw [Table.get?_insert_of_ne _ hne, ← heq key' start' hne]
      exact h.settled ((Table.get?_insert_of_ne s.table hne memo).symm.trans ht)

/-- The rule that was being grown has come to its end. -/
theorem settle {s : State K W S} {key : K} {start : Nat} {memo : Memo (W key)}
    (h : s.Sound view grammar wrapping (pending.insert key start memo) n)
    (hnone : pending.get? key start = none)
    (hmemo : Settled grammar wrapping view.items n key start memo) :
    s.Sound view grammar wrapping pending n where
  holds := h.holds
  cursor_le := h.cursor_le
  get?_of_pending {key' start' memo'} hp := by
    refine h.get?_of_pending ((Table.get?_insert_of_ne pending ?_ memo).trans hp)
    by_contra! heq
    obtain ⟨rfl, rfl⟩ := heq
    simp [hnone] at hp
  settled {key' start' memo'} ht := by
    rcases h.settled ht with hp | hset
    · by_cases hk : key' = key ∧ start' = start
      · obtain ⟨rfl, rfl⟩ := hk
        obtain rfl : memo = memo' := by simpa using hp
        exact .inr hmemo
      · have hne : key' ≠ key ∨ start' ≠ start := by tauto
        exact .inl ((Table.get?_insert_of_ne pending hne memo).symm.trans hp)
    · exact .inr hset

end State.Sound

/-- A memo that is found stands for any evaluation of its rule that comes to an end. -/
theorem recall_agrees (ranking : grammar.Ranking) {key : K} (fuel : Nat) {s : State K W S}
    {memo : Memo (W key)} (hs : s.Sound view grammar wrapping pending n)
    (hpending : pending.get? key s.cursor = none)
    (hget : s.table.get? key s.cursor = some memo) :
    Agrees view grammar wrapping pending n
      ((evaluate grammar view.items fuel key s.cursor).wrapped wrapping)
      (.ok memo.result, s.moveTo memo.stop) := by
  obtain ⟨fuel', reach, hreach, he⟩ := (hs.settled hget).resolve_left (by simp [hpending])
  by_cases hf : (evaluate grammar view.items fuel key s.cursor).Finishes
  · obtain ⟨result, hresult, -⟩ := map_answer_ok.1 (congrArg answer he)
    have hf' : (evaluate grammar view.items fuel' key s.cursor).Finishes := by
      simp [Finishes, hresult]
    have hstop : memo.stop ≤ reach := by
      have hle : ((evaluate grammar view.items fuel' key s.cursor).wrapped wrapping).stop ≤
          ((evaluate grammar view.items fuel' key s.cursor).wrapped wrapping).reach :=
        (ranking.evaluate_advances view.items fuel' key s.cursor).stop_le
      rwa [he] at hle
    rw [evaluate_eq_of_finishes hf' hf, he]
    refine ⟨rfl, rfl, ?_⟩
    rw [Nat.max_eq_left hreach]
    exact hs.moveTo (hstop.trans hreach)
  · unfold Agrees
    rw [map_answer_error.2 (not_not.1 hf)]
    trivial

theorem memoize_agrees (ranking : grammar.Ranking) {key : K}
    {body : Recognizer K W E S (W key)} {fuel : Nat} {s : State K W S}
    (hs : s.Sound view grammar wrapping pending n) (hpending : pending.get? key s.cursor = none)
    (hbody : Agrees view grammar wrapping pending n
      ((evaluate grammar view.items fuel key s.cursor).wrapped wrapping) (body s)) :
    Agrees view grammar wrapping pending n
      ((evaluate grammar view.items fuel key s.cursor).wrapped wrapping)
      (memoize key body s) := by
  cases hget : s.table.get? key s.cursor with
  | some memo =>
    rw [memoize_of_some body hget]
    exact recall_agrees ranking fuel hs hpending hget
  | none =>
    rw [memoize_of_none body hget]
    refine hbody.andThen_ok fun result s' ha hc hsound => ⟨rfl, hsound.record hpending ?_⟩
    refine ⟨fuel, _, Nat.le_max_right _ _, ?_⟩
    rw [← ha, hc]

theorem grow_agrees {key : K} {start : Nat} {body : Recognizer K W E S (W key)}
    {outcome : Memo (V key) → Outcome F E (Option (V key))}
    (hpending : pending.get? key start = none)
    (hbody : ∀ (best : Memo (V key)) n s, best.IsSeed start → s.cursor = start →
      s.Sound view grammar wrapping (pending.insert key start (best.wrapped wrapping)) n →
      Agrees view grammar wrapping (pending.insert key start (best.wrapped wrapping)) n
        ((outcome best).wrapped wrapping) (body s)) :
    ∀ rounds best n s, start ≤ n → best.IsSeed start →
      s.Sound view grammar wrapping (pending.insert key start (best.wrapped wrapping)) n →
      Concludes grammar view.items n key start (grownFrom outcome start rounds best) →
      Agrees view grammar wrapping pending n
        ((grownFrom outcome start rounds best).wrapped wrapping)
        (grow key body start rounds (best.wrapped wrapping) s)
  | 0, _, _, _, _, _, _, _ => trivial
  | rounds + 1, best, n, s, hstart, hseed, hs, hconcl => by
    rw [grow_succ, grownFrom, Outcome.wrapped, map_andThen]
    refine (hbody best n _ hseed rfl (hs.moveTo hstart)).map_andThen
      fun result s' ha hc hsound => ?_
    rw [grownFrom, andThen_ok ha, ← hc] at hconcl
    obtain ⟨fuel, reach, hreach, he⟩ := hconcl
    have hbest := hsound.get?_of_pending
      (Table.get?_insert_self pending key start (best.wrapped wrapping))
    -- The wrapping shows in the results, not in how far the rounds get.
    simp only [Option.isSome_map]
    change Agrees _ _ _ _ _ _ (if result.isSome ∧ best.stop < s'.cursor then _ else _)
    split
    · rename_i hbetter
      rw [if_pos hbetter] at he
      refine grow_agrees hpending hbody rounds { result, stop := s'.cursor } _ _
        (hstart.trans (Nat.le_max_left _ _)) (hseed.better result hbetter.2)
        (hsound.record_pending (fun key' start' hne => Table.get?_insert_of_ne _ hne _)
          hsound.cursor_le) ⟨fuel, max reach (outcome best).reach, by omega, ?_⟩
      rw [he, Nat.max_assoc]
    · rename_i hbetter
      rw [if_neg hbetter] at he
      have hsettled := hsound.settle hpending ⟨fuel, _, ?_, congrArg (·.wrapped wrapping) he⟩
      · exact agrees_ok (hsettled.moveTo hbest.2) (best.wrapped wrapping).result
      · have : best.stop ≤ n := (hs.get?_of_pending
          (Table.get?_insert_self pending key start (best.wrapped wrapping))).2
        simp only [here]
        omega

theorem memoizeGrown_agrees (ranking : grammar.Ranking) {key : K}
    {body : Recognizer K W E S (W key)} {outcome : Memo (V key) → Outcome F E (Option (V key))}
    {fuel rounds : Nat} {s : State K W S} (hs : s.Sound view grammar wrapping pending n)
    (hpending : pending.get? key s.cursor = none)
    (heval : evaluate grammar view.items fuel key s.cursor =
      grownFrom outcome s.cursor rounds { result := none, stop := s.cursor })
    (hbody : ∀ (best : Memo (V key)) n s', best.IsSeed s.cursor → s'.cursor = s.cursor →
      s'.Sound view grammar wrapping (pending.insert key s.cursor (best.wrapped wrapping)) n →
      Agrees view grammar wrapping (pending.insert key s.cursor (best.wrapped wrapping)) n
        ((outcome best).wrapped wrapping) (body s')) :
    Agrees view grammar wrapping pending n
      ((evaluate grammar view.items fuel key s.cursor).wrapped wrapping)
      (memoizeGrown key body rounds s) := by
  cases hget : s.table.get? key s.cursor with
  | some memo =>
    rw [memoizeGrown_of_some body rounds hget]
    exact recall_agrees ranking fuel hs hpending hget
  | none =>
    have hrec : (s.record key s.cursor { result := none, stop := s.cursor }).Sound view grammar
        wrapping (pending.insert key s.cursor { result := none, stop := s.cursor }) n :=
      hs.record_pending (fun _ _ _ => rfl) hs.cursor_le
    rw [memoizeGrown_of_none body rounds hget, heval]
    refine grow_agrees hpending hbody rounds { result := none, stop := s.cursor } n _
      hs.cursor_le (Memo.isSeed_failure _) hrec ⟨fuel, 0, Nat.zero_le n, ?_⟩
    rw [heval, Nat.zero_max]

/-! ## Calls -/

namespace Grammar.Ranking

/-- The pending memos are those of rules that began earlier, or at this position with a
higher rank. -/
def Clear (ranking : grammar.Ranking) (pending : Table K W) (key : K) (pos : Nat) : Prop :=
  ∀ other start memo, pending.get? other start = some memo →
    start < pos ∨ start = pos ∧ ranking.rank key < ranking.rank other

variable {ranking : grammar.Ranking} {key other : K} {pos pos' : Nat}

theorem Clear.get?_eq_none (h : ranking.Clear pending key pos) :
    pending.get? key pos = none := by
  cases hget : pending.get? key pos with
  | none => rfl
  | some memo =>
    rcases h key pos memo hget with h | h
    · exact absurd h (Nat.lt_irrefl pos)
    · exact absurd h.2 (Nat.lt_irrefl _)

/-- What a rule calls, but for the rule itself where it begins, is behind the rule or of a
lower rank. -/
theorem lt_or_rank_lt_of_mayCall (hle : pos ≤ pos')
    (hmay : pos < pos' ∨ grammar.MayCall ranking.rank key false other)
    (hself : key = other → grammar.strategy key = .grown → pos ≠ pos') :
    pos < pos' ∨ pos = pos' ∧ ranking.rank other < ranking.rank key := by
  rcases Nat.lt_or_eq_of_le hle with hlt | heq
  · exact .inl hlt
  · rcases hmay with h | h | h | h
    · exact .inl h
    · simp at h
    · exact .inr ⟨heq, h⟩
    · exact absurd heq (hself h.1.symm h.2)

theorem Clear.descend (h : ranking.Clear pending key pos)
    (hlt : pos < pos' ∨ pos = pos' ∧ ranking.rank other < ranking.rank key) :
    ranking.Clear pending other pos' := by
  intro other' start memo hget
  rcases h other' start memo hget with h | h <;> omega

theorem Clear.insert {start : Nat} {memo : Memo (W other)} (h : ranking.Clear pending key pos)
    (hstart : start < pos ∨ start = pos ∧ ranking.rank key < ranking.rank other) :
    ranking.Clear (pending.insert other start memo) key pos := by
  intro other' start' memo' hget
  by_cases hk : other' = other ∧ start' = start
  · obtain ⟨rfl, rfl⟩ := hk
    exact hstart
  · rw [Table.get?_insert_of_ne pending (by tauto)] at hget
    exact h other' start' memo' hget

end Grammar.Ranking

theorem Production.run_agrees (ranking : grammar.Ranking) {key : K}
    {callee : (key : K) → Recognizer K W E S (V key)}
    {outcome : (key : K) → Nat → Outcome F E (Option (V key))} {s : State K W S}
    (hadvances : ∀ key pos, (outcome key pos).Advances (ranking.consumes key) pos)
    (hcallee : ∀ other n s', s.cursor ≤ s'.cursor →
      (s.cursor < s'.cursor ∨ grammar.MayCall ranking.rank key false other) →
      s'.Sound view grammar wrapping pending n →
      Agrees view grammar wrapping pending n (outcome other s'.cursor) (callee other s'))
    (rounds : Nat) (hs : s.Sound view grammar wrapping pending n) :
    Agrees view grammar wrapping pending n
      ((grammar.production key).outcome view.items outcome rounds s.cursor)
      ((grammar.production key).run feed callee rounds key s) := by
  refine firstMatch_agrees _ (fun branch => branch.outcome_within
    (fun key pos => (hadvances key pos).toWithin) rounds s.cursor) _
      (fun branch hb n s' hc hs' => ?_)
    n (s.observe feed (.run key)) (Nat.le_refl _) (hs.observe _)
  rw [← hc] at hcallee ⊢
  exact branch.run_agrees hadvances hcallee rounds (ranking.ranked key branch hb) hs'
    (Nat.le_refl _) (by simp)

/-- A match that has been wrapped for its rule is not discarded. -/
theorem expect_agrees (hlawful : wrapping.Lawful) {key : K} {o : Outcome F E (Option (V key))}
    {callee : Recognizer K W E S (W key)} {s : State K W S}
    (h : Agrees view grammar wrapping pending n (o.wrapped wrapping) (callee s)) :
    Agrees view grammar wrapping pending n o (expect wrapping key callee s) := by
  have hmap : (o.wrapped wrapping).map (fun kept => kept.bind (wrapping.unwrap key)) = o := by
    have hid : (fun kept => kept.bind (wrapping.unwrap key)) ∘ Option.map (wrapping.wrap key) =
        id := by
      funext result
      cases result with
      | none => rfl
      | some a => exact hlawful key a
    rw [Outcome.wrapped, map_map, hid, map_id]
  rw [expect_eq, ← hmap]
  exact h.map

theorem Production.apply_agrees (hlawful : wrapping.Lawful) (ranking : grammar.Ranking) {key : K}
    {callee : (key : K) → Recognizer K W E S (W key)}
    {outcome : (key : K) → Nat → Outcome F E (Option (V key))} {s : State K W S}
    (hadvances : ∀ key pos, (outcome key pos).Advances (ranking.consumes key) pos)
    (hcallee : ∀ other n s', s.cursor ≤ s'.cursor →
      (s.cursor < s'.cursor ∨ grammar.MayCall ranking.rank key false other) →
      s'.Sound view grammar wrapping pending n →
      Agrees view grammar wrapping pending n ((outcome other s'.cursor).wrapped wrapping)
        (callee other s'))
    (rounds : Nat) (hs : s.Sound view grammar wrapping pending n) :
    Agrees view grammar wrapping pending n
      (((grammar.production key).outcome view.items outcome rounds s.cursor).wrapped wrapping)
      ((grammar.production key).apply feed wrapping callee rounds key s) := by
  rw [apply_eq]
  exact (run_agrees ranking hadvances (fun other n s' hle hmay hs' =>
    expect_agrees hlawful (hcallee other n s' hle hmay hs')) rounds hs).map

/-- The calls inside a grown rule : the rule itself is answered from its pending memo. -/
theorem seeded_agrees {ranking : grammar.Ranking} {fuel : Nat} {key other : K} {start : Nat}
    {best : Memo (V key)} {s : State K W S} (hgrown : grammar.strategy key = .grown)
    (hclear : ranking.Clear pending key start) (hle : start ≤ s.cursor)
    (hmay : start < s.cursor ∨ grammar.MayCall ranking.rank key false other)
    (hs : s.Sound view grammar wrapping (pending.insert key start (best.wrapped wrapping)) n)
    (hcall : ranking.Clear (pending.insert key start (best.wrapped wrapping)) other s.cursor →
      Agrees view grammar wrapping (pending.insert key start (best.wrapped wrapping)) n
        ((evaluate grammar view.items (fuel + 1) other s.cursor).wrapped wrapping)
        (call grammar wrapping feed (fuel + 1) other s)) :
    Agrees view grammar wrapping (pending.insert key start (best.wrapped wrapping)) n
      ((seeded key start best (evaluate grammar view.items (fuel + 1)) other s.cursor).wrapped
        wrapping)
      (call grammar wrapping feed (fuel + 1) other s) := by
  unfold seeded
  split
  · rename_i hself
    obtain ⟨rfl, rfl⟩ := hself
    have hs := hs.observe (.attempt key)
    have hbest := hs.get?_of_pending
      (Table.get?_insert_self pending key s.cursor (best.wrapped wrapping))
    rw [call, runRule_of_memo _ fuel (by simp [hgrown]) hbest.1]
    exact (agrees_ok (hs.moveTo hbest.2) (best.wrapped wrapping).result).observe _
  · rename_i hself
    have hlt := Grammar.Ranking.lt_or_rank_lt_of_mayCall hle hmay
      fun hkey _ hpos => hself ⟨hkey, hpos⟩
    exact hcall ((hclear.descend hlt).insert hlt)

theorem runRule_agrees (hlawful : wrapping.Lawful) (ranking : grammar.Ranking) {fuel : Nat}
    {key : K} {s : State K W S} (hs : s.Sound view grammar wrapping pending n)
    (hclear : ranking.Clear pending key s.cursor)
    (hcall : ∀ (other : K) {pending : Table K W} {n : Nat} {s : State K W S},
      s.Sound view grammar wrapping pending n → ranking.Clear pending other s.cursor →
      Agrees view grammar wrapping pending n
        ((evaluate grammar view.items fuel other s.cursor).wrapped wrapping)
        (call grammar wrapping feed fuel other s)) :
    Agrees view grammar wrapping pending n
      ((evaluate grammar view.items (fuel + 1) key s.cursor).wrapped wrapping)
      (runRule grammar key fuel ((grammar.production key).apply feed wrapping
        (call grammar wrapping feed fuel) fuel key) s) := by
  have hadvances := ranking.evaluate_advances view.items fuel
  have hnone := hclear.get?_eq_none
  by_cases hgrown : grammar.strategy key = .grown
  · rw [runRule, hgrown]
    cases fuel with
    | zero => simp [evaluate, hgrown, grownFrom, Agrees, Outcome.fail, Outcome.map, Except.map]
    | succ fuel =>
      refine memoizeGrown_agrees ranking hs hnone (by rw [evaluate, if_pos hgrown])
        fun best n s' hseed hc hs' => ?_
      rw [← hc] at hseed hs' hclear ⊢
      exact Production.apply_agrees hlawful ranking (seeded_advances hseed hadvances)
        (fun other n s'' hle hmay hs'' =>
          seeded_agrees hgrown hclear hle hmay hs'' (hcall other hs'')) _ hs'
  · have heval : evaluate grammar view.items (fuel + 1) key s.cursor =
        (grammar.production key).outcome view.items (evaluate grammar view.items fuel) fuel
          s.cursor := by
      rw [evaluate, if_neg hgrown]
    have hbody := Production.apply_agrees hlawful ranking hadvances
      (fun other n s' hle hmay hs' => hcall other hs' (hclear.descend
        (Grammar.Ranking.lt_or_rank_lt_of_mayCall hle hmay fun _ h => absurd h hgrown))) fuel hs
    rw [← heval] at hbody
    unfold runRule
    cases hstrategy : grammar.strategy key with
    | plain => exact hbody
    | cached => exact memoize_agrees ranking hs hnone hbody
    | grown => exact absurd hstrategy hgrown

/-- Whatever the table holds, a rule comes to what it comes to without a table. -/
theorem call_agrees (hlawful : wrapping.Lawful) (ranking : grammar.Ranking) (fuel : Nat) (key : K)
    {pending : Table K W} {n : Nat} {s : State K W S}
    (hs : s.Sound view grammar wrapping pending n) (hclear : ranking.Clear pending key s.cursor) :
    Agrees view grammar wrapping pending n
      ((evaluate grammar view.items fuel key s.cursor).wrapped wrapping)
      (call grammar wrapping feed fuel key s) := by
  induction fuel generalizing key pending n s with
  | zero => trivial
  | succ fuel ih =>
    have h := runRule_agrees hlawful ranking (hs.observe (.attempt key)) hclear
      (fun other _ _ _ hs hclear => ih other hs hclear)
    exact h.observe _

end

end OpticScript.Packrat
