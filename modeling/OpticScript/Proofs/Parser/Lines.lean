import OpticScript.Proofs.Grammar.Brackets
import OpticScript.Proofs.Grammar.Related
import OpticScript.Proofs.Lexer.Append
import OpticScript.Proofs.Parser.Outcome

/-!
# Line after line

A script is read line after line (`Reads`), and no line looks past its newline
(`comesTo_scriptLine_before`). So the lines before a newline are read the same way whatever
comes after it (`Reads.congr`), and either all of them are read or the outcome does not
depend on what comes after (`reads_or_eq`).

What the lines come to decides the result of reading a script (`Lexer.conclusion`,
`ofSource_eq_conclusion`), for every amount of fuel that is enough.
-/

namespace OpticScript

open Packrat Packrat.Outcome

/-! ## The conclusion -/

/-- The reason for not reading a script when no rule fits a line and `n` tokens have been
looked at. -/
def Lexer.rejection (lexer : Lexer) (n : Nat) : Halt ScriptError :=
  match lexer.item (n - 1) with
  | .ok (some last) => .fatal (lexer.diagnosis n last)
  | .ok none => .outOfFuel
  | .error e => .fatal e

/-- The result of reading a script whose lines come to this. -/
def Lexer.conclusion (lexer : Lexer) (o : Outcome Blame ScriptError Script) :
    Except (Halt ScriptError) Script :=
  match o.answer with
  | .ok script =>
    match lexer.item o.stop with
    | .ok mark =>
      if mark.any (·.kind = .endMarker) then .ok script
      else .error (lexer.rejection (max o.reach (o.stop + 1)))
    | .error e => .error (.fatal e)
  | .error (.item e) => .error (.fatal e)
  | .error (.complaint blame) =>
    .error (.fatal (.located ((lexer.after o.reach).blame blame.cause blame.token)))
  | .error .outOfFuel => .error .outOfFuel

section

variable {lexer : Lexer} {fuel : Nat}

theorem Lexer.conclusion_eq_ok_iff {o : Outcome Blame ScriptError Script} {script : Script} :
    lexer.conclusion o = .ok script ↔ o.answer = .ok script ∧
      ∃ mark, lexer.item o.stop = .ok (some mark) ∧ mark.kind = .endMarker := by
  unfold Lexer.conclusion
  rcases o.answer with (e | blame | _) | script'
  · simp
  · simp
  · simp
  · rcases lexer.item o.stop with e | _ | mark
    · simp
    · simp
    · by_cases hkind : mark.kind = .endMarker <;> simp [hkind]

theorem Lexer.conclusion_eq_error_iff {o : Outcome Blame ScriptError Script}
    (hfinishes : o.Finishes) {halt : Halt ScriptError} : lexer.conclusion o = .error halt ↔
      (∃ e, o.answer = .error (.item e) ∧ .fatal e = halt) ∨
      (∃ blame, o.answer = .error (.complaint blame) ∧
        .fatal (.located ((lexer.after o.reach).blame blame.cause blame.token)) = halt) ∨
      ∃ script, o.answer = .ok script ∧
        ((∃ e, lexer.item o.stop = .error e ∧ .fatal e = halt) ∨
          ∃ t, lexer.item o.stop = .ok (some t) ∧ t.kind ≠ .endMarker ∧
            lexer.rejection (max o.reach (o.stop + 1)) = halt) := by
  unfold Lexer.conclusion
  rcases hanswer : o.answer with (e | blame | _) | script
  · simp
  · simp
  · exact absurd hanswer hfinishes
  · rcases hitem : lexer.item o.stop with e | _ | mark
    · simp
    · exact absurd hitem (Lexer.item_ne_none _)
    · by_cases hkind : mark.kind = .endMarker <;> simp [hkind]

theorem Lexer.EndsAt.diagnosis_eq {n wall : Nat} (h : lexer.EndsAt wall) (hn : n ≤ wall)
    (last : Token) : lexer.diagnosis n last =
      match lexer.toEnd.failure with
      | some e => e
      | none => .located (lexer.toEnd.final.blame .unrecognized last) := by
  obtain ⟨hfailure, hfinal⟩ := h.toEnd_after hn
  rcases hscan : lexer.toEnd.failure with _ | e
  · simp only [Lexer.diagnosis, hfailure, hscan, hfinal]
  · simp only [Lexer.diagnosis, hfailure, hscan]

/-- An error at the end is the reason for not reading a script. -/
theorem Lexer.EndsAt.rejection_of_error {n wall : Nat} (h : lexer.EndsAt wall) {e : ScriptError}
    (he : lexer.item wall = .error e) (hn : n < wall + 1) : lexer.rejection (n + 1) = .fatal e := by
  unfold Lexer.rejection
  rw [Nat.add_sub_cancel]
  rcases Nat.lt_or_eq_of_le (Nat.le_of_lt_succ hn) with hlt | rfl
  · obtain ⟨last, hlast, -⟩ := h.not_wall n hlt
    simp only [hlast]
    rw [h.diagnosis_eq hlt, h.failure_of_error he]
  · rw [he]

theorem Lexer.verdict_of_none {n : Nat} {o : Outcome Blame ScriptError (Option Script)}
    (h : o.answer = .ok none) : lexer.verdict n o = .error (lexer.rejection (max n o.reach)) := by
  unfold Lexer.verdict Lexer.rejection
  rw [h]
  dsimp only
  rcases lexer.item (max n o.reach - 1) with e | _ | last <;> rfl

theorem Lexer.verdict_scriptOutcome (hfuel : fuel ≠ 0) :
    lexer.verdict 0 (lexer.scriptOutcome fuel 0) =
      lexer.conclusion (linesOutcome (lexer.comesTo fuel .scriptLine) fuel .empty 0) := by
  obtain ⟨fuel, rfl⟩ := Nat.exists_eq_succ_of_ne_zero hfuel
  set lines := linesOutcome (lexer.comesTo (fuel + 1) .scriptLine) (fuel + 1) .empty 0 with hdef
  unfold Lexer.conclusion
  rw [Lexer.scriptOutcome, ← hdef]
  rcases hlines : lines.answer with fault | script
  · rw [andThen_error hlines]
    cases fault <;> simp [Lexer.verdict]
  · rw [andThen_ok hlines, Lexer.comesTo_token, takeAt, lookAt]
    rcases hitem : lexer.item lines.stop with e | _ | mark
    · simp [thenMatch, andThen, Lexer.verdict]
    · rw [Lexer.verdict_of_none (by simp [thenMatch, andThen, here])]
      simp [thenMatch, andThen, here]
    · by_cases hkind : mark.kind = .endMarker
      · simp [thenMatch, andThen, here, hkind, Lexer.verdict]
      · rw [Lexer.verdict_of_none (by simp [thenMatch, andThen, here, hkind])]
        simp [thenMatch, andThen, here, hkind]

/-- More fuel makes no difference to the lines once there is enough. -/
theorem linesOutcome_of_le {line line' : Nat → Outcome Blame ScriptError (Option Line)}
    (hline : ∀ pos, (line pos).Finishes → line' pos = line pos) :
    ∀ {rounds rounds' : Nat}, rounds ≤ rounds' → ∀ script pos,
      (linesOutcome line rounds script pos).Finishes →
        linesOutcome line' rounds' script pos = linesOutcome line rounds script pos
  | 0, _, _, _, _, hf => absurd hf (by simp [linesOutcome, Finishes, Outcome.fail])
  | rounds + 1, 0, h, _, _, _ => absurd h (by omega)
  | rounds + 1, rounds' + 1, h, script, pos, hf => by
    rw [linesOutcome] at hf
    have hfirst : (line pos).Finishes := by
      intro hanswer
      simp [andThen_error hanswer, Finishes] at hf
    rw [linesOutcome, linesOutcome, hline pos hfirst]
    refine andThen_congr fun next hnext => ?_
    cases next with
    | none => rfl
    | some next =>
      dsimp only
      cases hadd : Parser.addLine script next with
      | error blame => rfl
      | ok script' =>
        refine linesOutcome_of_le hline (Nat.le_of_succ_le_succ h) script' _ ?_
        simpa [andThen_ok hnext, hadd, Finishes] using hf

/-- What the lines of a source come to decides what is read from it. -/
theorem ofSource_eq_conclusion {source : Source} {fuel : Nat}
    (hfuel : Parser.fuel (.ofLexer (.ofSource source)) ≤ fuel) :
    Script.ofSource source = (Lexer.ofSource source).conclusion
      (linesOutcome ((Lexer.ofSource source).comesTo fuel .scriptLine) fuel .empty 0) := by
  obtain ⟨wall, hwall, hends⟩ := (Lexer.ofSource source).exists_endsAt
  have henough : fuelFor wall 0 ≤ Parser.fuel (.ofLexer (.ofSource source)) :=
    fuelFor_le_fuel_ofLexer hwall
  have hlines := linesOutcome_of_le (fun pos hf => evaluate_of_le hf hfuel) hfuel .empty 0
    (Lexer.lines_finish hends.wall (Nat.zero_le wall) henough)
  rw [Script.ofSource_eq_verdict, Lexer.verdict_scriptOutcome (by unfold fuelFor at henough; omega)]
  exact congrArg _ hlines.symm

/-! ## One line -/

/-- A line looks at no token after its newline. -/
theorem Lexer.comesTo_scriptLine_before {wall pos : Nat}
    (hwall : Wall lexer.item (fun t => t.kind = .newline ∨ t.kind = .endMarker) wall)
    (hpos : pos ≤ wall) (fuel : Nat) : (lexer.comesTo fuel .scriptLine pos).Before (wall + 1) := by
  rcases fuel with _ | fuel
  · exact before_fail _ (Nat.le_succ_of_le hpos)
  have hplain : scriptGrammar.strategy .scriptLine ≠ .grown := by
    simp [scriptGrammar, Rule.strategy, Rule.isLeftRecursive]
  refine evaluate_before hplain Phrase.scriptLine_closes (fun r pos hr hle =>
    evaluate_upTo (scriptGrammar_confined_line true) hwall fuel r pos hr hle) ?_ hpos
  rintro _ pos rfl hle
  rcases fuel with _ | fuel
  · exact before_fail _ (Nat.le_succ_of_le hle)
  · change (lexer.comesTo (fuel + 1) (.token .newline) pos).Before _
    rw [Lexer.comesTo_token]
    have htake : (takeAt lexer.item (·.kind = .newline) pos :
        Outcome Blame ScriptError (Option Token)).Before (pos + 1) := takeAt_before _ pos
    exact ⟨htake.stop_le.imp fun _ _ h => h.trans (Nat.succ_le_succ hle),
      htake.reach_le.trans (Nat.succ_le_succ hle)⟩

/-- The rule of a token does not match a token of another kind. -/
theorem Lexer.comesTo_token_none (fuel : Nat) {pos : Nat} {t : Token} {kind : TokenKind}
    (ht : lexer.item pos = .ok (some t)) (hkind : t.kind ≠ kind) :
    lexer.comesTo (fuel + 1) (.token kind) pos =
      { answer := .ok none, stop := pos, reach := pos + 1 } := by
  rw [Lexer.comesTo_token]
  simp [takeAt, lookAt, ht, hkind, thenMatch, andThen, here]

theorem Lexer.comesTo_command_none (fuel : Nat) {pos : Nat} {t : Token}
    (ht : lexer.item pos = .ok (some t)) (hname : t.kind ≠ .name) (hplus : t.kind ≠ .plus) :
    lexer.comesTo (fuel + 2) .command pos =
      { answer := .ok none, stop := pos, reach := pos + 1 } := by
  have hfirst := Lexer.comesTo_token_none fuel ht hname
  have hsecond := Lexer.comesTo_token_none fuel ht hplus
  rw [Lexer.comesTo_succ lexer (fuel + 1) rfl]
  simp [Phrase.branches, Phrase.command, Phrase.token, Phrase.rule, Bind.bind, Branch.bind,
    firstOutcome, Branch.outcome, hfirst, hsecond, thenMatch, andThen, here]

/-- There is no line at the end marker. -/
theorem Lexer.comesTo_scriptLine_none {pos : Nat} {t : Token}
    (ht : lexer.item pos = .ok (some t)) (hmark : t.kind = .endMarker) (hfuel : 3 ≤ fuel) :
    lexer.comesTo fuel .scriptLine pos =
      { answer := .ok none, stop := pos, reach := pos + 1 } := by
  obtain ⟨fuel, rfl⟩ := Nat.exists_eq_add_of_le' hfuel
  have hcommand := Lexer.comesTo_command_none fuel ht (by simp [hmark]) (by simp [hmark])
  have hcomment := Lexer.comesTo_token_none (fuel + 1) ht (show t.kind ≠ .comment by simp [hmark])
  have hnewline := Lexer.comesTo_token_none (fuel + 1) ht (show t.kind ≠ .newline by simp [hmark])
  rw [Lexer.comesTo_succ lexer (fuel + 2) rfl]
  simp [Phrase.branches, Phrase.scriptLine, Phrase.token, Phrase.rule, Phrase.optionalToken,
    Bind.bind, Branch.bind,
    firstOutcome, Branch.outcome, hcommand, hcomment, hnewline, thenMatch, andThen, here]

end

/-! ## Runs of lines -/

/-- So many lines from a position on make one script of another. -/
inductive Reads (line : Nat → Outcome Blame ScriptError (Option Line)) :
    Script → Nat → Nat → Script → Nat → Prop
  | nil (script : Script) (pos : Nat) : Reads line script pos 0 script pos
  | cons {script script' script'' : Script} {pos m stop : Nat} {next : Line}
      (head : (line pos).answer = .ok (some next))
      (hadd : Parser.addLine script next = .ok script')
      (tail : Reads line script' (line pos).stop m script'' stop) :
      Reads line script pos (m + 1) script'' stop

section

variable {line line' : Nat → Outcome Blame ScriptError (Option Line)} {script script' : Script}
  {pos m stop n : Nat}

theorem linesOutcome_of_none (hnone : (line pos).answer = .ok none) (rounds : Nat) :
    linesOutcome line (rounds + 1) script pos =
      { answer := .ok script, stop := (line pos).stop,
        reach := max (line pos).reach (line pos).stop } := by
  rw [linesOutcome, andThen_ok hnone]
  rfl

theorem linesOutcome_of_next {next : Line} (hnext : (line pos).answer = .ok (some next))
    (hadd : Parser.addLine script next = .ok script') (rounds : Nat) :
    linesOutcome line (rounds + 1) script pos =
      { linesOutcome line rounds script' (line pos).stop with
        reach := max (line pos).reach
          (linesOutcome line rounds script' (line pos).stop).reach } := by
  rw [linesOutcome, andThen_ok hnext]
  simp only [hadd]

theorem linesOutcome_of_refused {next : Line} {blame : Blame}
    (hnext : (line pos).answer = .ok (some next)) (hadd : Parser.addLine script next = .error blame)
    (rounds : Nat) :
    linesOutcome line (rounds + 1) script pos =
      { answer := .error (.complaint blame), stop := (line pos).stop,
        reach := max (line pos).reach (line pos).stop } := by
  rw [linesOutcome, andThen_ok hnext]
  simp only [hadd]
  rfl

/-- A line takes a token. -/
theorem Reads.le (h : Reads line script pos m script' stop)
    (hline : ∀ pos, (line pos).Advances true pos) : pos + m ≤ stop := by
  induction h with
  | nil => exact Nat.le_refl _
  | @cons _ _ _ pos _ _ _ head _ _ ih =>
    have hlt := (hline pos).lt_stop rfl _ head rfl
    omega

theorem Reads.le_wall {lexer : Lexer} {fuel wall : Nat}
    (hwall : Wall lexer.item (fun t => t.kind = .endMarker) wall)
    (h : Reads (lexer.comesTo fuel .scriptLine) script pos m script' stop) (hpos : pos ≤ wall) :
    stop ≤ wall := by
  induction h with
  | nil => exact hpos
  | cons head _ _ ih => exact ih ((Lexer.comesTo_upTo hwall fuel (by simp) hpos).stop_le _ head)

/-- Lines before a position are the same if what they come to is the same. -/
theorem Reads.congr (h : Reads line script pos m script' stop)
    (hline : ∀ pos, (line pos).Advances true pos) (heq : ∀ p < stop, line' p = line p) :
    Reads line' script pos m script' stop := by
  induction h with
  | nil => exact .nil _ _
  | @cons _ _ _ pos _ _ _ head hadd tail ih =>
    have hlt := (hline pos).lt_stop rfl _ head rfl
    have hle := tail.le hline
    have hpos := heq pos (by omega)
    exact .cons (by rwa [hpos]) hadd (by rw [hpos]; exact ih heq)

theorem linesOutcome_within (hline : ∀ pos, (line pos).Advances true pos) :
    ∀ rounds script pos, (linesOutcome line rounds script pos).Within pos
  | 0, _, pos => within_fail _ pos
  | rounds + 1, script, pos => by
    refine (hline pos).toWithin.andThen fun next _ => ?_
    have hle := (hline pos).le_stop
    cases next with
    | none => exact within_here _ hle
    | some next =>
      dsimp only
      cases Parser.addLine script next with
      | error blame => exact (within_fail _ _).mono hle
      | ok script' => exact (linesOutcome_within hline rounds script' _).mono hle

/-- An error of the lines is one of a line. -/
theorem linesOutcome_item_error {e : ScriptError} : ∀ {rounds script pos},
    (linesOutcome line rounds script pos).answer = .error (.item e) →
      ∃ p, (line p).answer = .error (.item e) ∧
        (line p).reach ≤ (linesOutcome line rounds script pos).reach
  | 0, _, _, h => by simp [linesOutcome, Outcome.fail] at h
  | rounds + 1, script, pos, h => by
    rcases hanswer : (line pos).answer with fault | _ | next
    · rw [linesOutcome, andThen_error hanswer] at h ⊢
      obtain rfl := Except.error.inj h
      exact ⟨pos, hanswer, Nat.le_refl _⟩
    · simp [linesOutcome_of_none hanswer] at h
    · rcases hadd : Parser.addLine script next with blame | script'
      · simp [linesOutcome_of_refused hanswer hadd] at h
      · rw [linesOutcome_of_next hanswer hadd] at h ⊢
        obtain ⟨p, hp, hle⟩ := linesOutcome_item_error h
        exact ⟨p, hp, hle.trans (Nat.le_max_right _ _)⟩

/-- Lines that come to a script look no farther than the lines up to their end do. -/
theorem linesOutcome_reach_le (hline : ∀ pos, (line pos).Advances true pos) :
    ∀ {rounds script pos}, (linesOutcome line rounds script pos).answer = .ok script' →
      (∀ p ≤ (linesOutcome line rounds script pos).stop, (line p).reach ≤ n) →
        (linesOutcome line rounds script pos).reach ≤ n
  | 0, _, _, h, _ => by simp [linesOutcome, Outcome.fail] at h
  | rounds + 1, script, pos, h, hreach => by
    rcases hanswer : (line pos).answer with fault | _ | next
    · rw [linesOutcome, andThen_error hanswer] at h
      simp at h
    · rw [linesOutcome_of_none hanswer] at hreach ⊢
      have hfirst := hreach pos (hline pos).le_stop
      exact max_le hfirst ((hline pos).stop_le.trans hfirst)
    · rcases hadd : Parser.addLine script next with blame | script''
      · simp [linesOutcome_of_refused hanswer hadd] at h
      · rw [linesOutcome_of_next hanswer hadd] at h hreach ⊢
        have hstop := (linesOutcome_within hline rounds script'' (line pos).stop).le_stop
        exact max_le (hreach pos ((hline pos).le_stop.trans hstop))
          (linesOutcome_reach_le hline h hreach)

/-- After some lines the lines come to what the rest of them comes to. -/
theorem Reads.linesOutcome_eq (h : Reads line script pos m script' stop)
    (hline : ∀ pos, (line pos).Advances true pos) (hreach : ∀ p < stop, (line p).reach ≤ stop)
    (rounds : Nat) :
    linesOutcome line (rounds + m) script pos = linesOutcome line rounds script' stop := by
  induction h with
  | nil => rfl
  | @cons script script' script'' pos m stop next head hadd tail ih =>
    have hlt := (hline pos).lt_stop rfl _ head rfl
    have hle := tail.le hline
    have hwithin := linesOutcome_within hline rounds script'' stop
    have hmax : max (line pos).reach (linesOutcome line rounds script'' stop).reach =
        (linesOutcome line rounds script'' stop).reach :=
      Nat.max_eq_right ((hreach pos (by omega)).trans (hwithin.le_stop.trans hwithin.stop_le))
    rw [← Nat.add_assoc, linesOutcome_of_next head hadd, ih hreach, hmax]

/-- Either all lines up to a position are read, or nothing that comes after it has any
bearing on the outcome. -/
theorem reads_or_eq (hline : ∀ pos, (line pos).Advances true pos)
    (hreturns : Returns line) (hreach : ∀ p < n, (line p).reach ≤ n)
    (heq : ∀ p < n, line' p = line p) :
    ∀ rounds script pos, pos ≤ n →
      (∃ m script', Reads line script pos m script' n) ∨
        linesOutcome line' rounds script pos = linesOutcome line rounds script pos ∧
          (linesOutcome line rounds script pos).reach ≤ n ∧
          (linesOutcome line rounds script pos).Ensures fun _ stop => stop < n
  | 0, script, pos, hpos => by
    rcases Nat.lt_or_eq_of_le hpos with hlt | rfl
    · exact .inr ⟨rfl, hpos, ensures_fail⟩
    · exact .inl ⟨0, script, .nil script pos⟩
  | rounds + 1, script, pos, hpos => by
    rcases Nat.lt_or_eq_of_le hpos with hlt | rfl
    · have hfirst := hreach pos hlt
      have hsame := heq pos hlt
      have hle := (hline pos).stop_le.trans hfirst
      rcases hanswer : (line pos).answer with fault | _ | next
      · refine .inr ?_
        rw [linesOutcome, linesOutcome, hsame, andThen_error hanswer, andThen_error hanswer]
        exact ⟨rfl, hfirst, fun _ hok => by simp at hok⟩
      · refine .inr ?_
        have hstop : (line pos).stop = pos := hreturns pos none hanswer rfl
        rw [linesOutcome, linesOutcome, hsame, andThen_ok hanswer, andThen_ok hanswer]
        exact ⟨rfl, max_le hfirst hle, fun _ _ => hstop.symm ▸ hlt⟩
      · have hanswer' : (line' pos).answer = .ok (some next) := hsame ▸ hanswer
        rcases hadd : Parser.addLine script next with blame | script'
        · refine .inr ?_
          rw [linesOutcome_of_refused hanswer hadd, linesOutcome_of_refused hanswer' hadd, hsame]
          exact ⟨rfl, max_le hfirst hle, fun _ hok => by simp at hok⟩
        · rcases reads_or_eq hline hreturns hreach heq rounds script' _ hle with
            ⟨m, script'', hreads⟩ | ⟨htail, hbound, hstop⟩
          · exact .inl ⟨m + 1, script'', .cons hanswer hadd hreads⟩
          · refine .inr ?_
            rw [linesOutcome_of_next hanswer hadd, linesOutcome_of_next hanswer' hadd, hsame, htail]
            exact ⟨rfl, max_le hfirst hbound, fun _ hok => hstop _ hok⟩
    · exact .inl ⟨0, script, .nil script pos⟩

end

/-- Lines that are read leave no bracket open that they open. -/
theorem Reads.openers {lexer : Lexer} (hregular : lexer.Regular) {fuel : Nat}
    {script script' : Script} {pos m stop : Nat}
    (h : Reads (lexer.comesTo fuel .scriptLine) script pos m script' stop) :
    (lexer.after stop).openers = (lexer.after pos).openers := by
  induction h with
  | nil => rfl
  | @cons _ _ _ pos _ _ _ head _ _ ih =>
    exact ih.trans (evaluate_scriptLine_openers hregular fuel pos _ head rfl)

end OpticScript
