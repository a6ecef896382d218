import OpticScript.Proofs.Lexer.Layout
import OpticScript.Proofs.Parser.Below

/-!
# What is blamed

If a script is not read, the lexer finds something wrong with its text, or the grammar
refuses a line of it, or no rule fits a line (`Lexer.Concludes`). In the last case the lexer
finds nothing wrong with the whole text (`Lexer.StuckAt`), and a token of that very line is
blamed (`Lexer.rejection_eq`) : no line looks past its newline, and the end marker comes
after one.
-/

namespace OpticScript

open Packrat Packrat.Outcome

namespace Lexer

/-- The lines come to `o`, and no rule fits the line that begins with this token. The lexer
finds nothing wrong with the text. -/
structure StuckAt (lexer : Lexer) (o : Outcome Blame ScriptError Script) (t : Token) : Prop where
  answer : ∃ script, o.answer = .ok script
  item_eq : lexer.item o.stop = .ok (some t)
  kind_ne : t.kind ≠ .endMarker
  failure_eq : lexer.toEnd.failure = none

/-- What becomes of a script whose lines come to `o`. -/
inductive Concludes (lexer : Lexer) (o : Outcome Blame ScriptError Script) :
    Except (Halt ScriptError) Script → Prop
  | script (script : Script) (h : lexer.toEnd.failure = none) : Concludes lexer o (.ok script)
  /-- The lexer finds an error, whether the lines look at it or not. -/
  | lexical {e : ScriptError} (h : lexer.toEnd.failure = some e) :
      Concludes lexer o (.error (.fatal e))
  /-- The lines have looked at the token that the grammar refuses. -/
  | refused {blame : Blame} {n : Nat} (h : blame.cause.Grammatical) (hn : n < o.reach)
      (hitem : lexer.item n = .ok (some blame.token))
      (hkind : blame.token.kind ≠ .newline ∧ blame.token.kind ≠ .endMarker) :
      Concludes lexer o (.error (.fatal (.located
        ((lexer.after o.reach).blame blame.cause blame.token))))
  | stuck {t : Token} (h : lexer.StuckAt o t) :
      Concludes lexer o (.error (lexer.rejection (max o.reach (o.stop + 1))))

section

variable {lexer : Lexer} {wall fuel : Nat}

/-- What stands behind an error that has a place. -/
theorem Concludes.located {o : Outcome Blame ScriptError Script} {d : Diagnostic}
    (h : Concludes lexer o (.error (.fatal (.located d)))) :
    lexer.toEnd.failure = some (.located d) ∨
    (∃ (blame : Blame) (n : Nat), blame.cause.Grammatical ∧ n < o.reach ∧
      lexer.item n = .ok (some blame.token) ∧
      (blame.token.kind ≠ .newline ∧ blame.token.kind ≠ .endMarker) ∧
      d = (lexer.after o.reach).blame blame.cause blame.token) ∨
    ∃ t, lexer.StuckAt o t ∧ lexer.rejection (max o.reach (o.stop + 1)) = .fatal (.located d) := by
  generalize hresult : Except.error (Halt.fatal (ScriptError.located d)) = result at h
  cases h with
  | script => simp at hresult
  | @lexical e hfailure =>
    obtain rfl : .located d = e := by simpa using hresult
    exact .inl hfailure
  | @refused blame n hgrammatical hn hitem hkind =>
    obtain rfl : d = _ := by simpa using hresult
    exact .inr (.inl ⟨blame, n, hgrammatical, hn, hitem, hkind, rfl⟩)
  | @stuck t hstuck => exact .inr (.inr ⟨t, hstuck, (Except.error.inj hresult).symm⟩)

theorem EndsAt.error_wall (h : lexer.EndsAt wall) {i : Nat} {e : ScriptError} (hi : i ≤ wall)
    (he : lexer.item i = .error e) : lexer.item wall = .error e := by
  rcases Nat.lt_or_eq_of_le hi with hlt | rfl
  · obtain ⟨t, ht, -⟩ := h.not_wall i hlt
    simp [he] at ht
  · exact he

/-- An error of the lexer is the reason if there is one, unless the grammar refuses a line. -/
theorem EndsAt.concludes (hends : lexer.EndsAt wall) (hfuel : fuelFor wall 0 ≤ fuel) :
    let o := linesOutcome (lexer.comesTo fuel .scriptLine) fuel .empty 0
    Concludes lexer o (lexer.conclusion o) := by
  intro o
  have hfinishes : o.Finishes := Lexer.lines_finish hends.wall (Nat.zero_le wall) hfuel
  have hupTo : o.UpTo wall := linesOutcome_upTo hends.wall fuel .empty 0 (Nat.zero_le wall)
  rcases hconclusion : lexer.conclusion o with halt | script
  · rcases (conclusion_eq_error_iff hfinishes).1 hconclusion with
      ⟨e, he, rfl⟩ | ⟨blame, hblame, rfl⟩ | ⟨script, hok, ⟨e, he, rfl⟩ | ⟨t, ht, hkind, rfl⟩⟩
    · obtain ⟨i, hi, hitem⟩ := linesOutcome_item he
      have hle : i ≤ wall := Nat.le_of_lt_succ (hi.trans_le hupTo.reach_le)
      exact .lexical (hends.failure_of_error (hends.error_wall hle hitem))
    · obtain ⟨hgrammatical, hkind, n, hn, hitem⟩ := linesOutcome_complaint hblame
      exact .refused hgrammatical hn hitem hkind
    · exact .lexical (hends.failure_of_error (hends.error_wall (hupTo.stop_le _ hok) he))
    · rcases hfailure : lexer.toEnd.failure with _ | e
      · exact .stuck ⟨⟨script, hok⟩, ht, hkind, hfailure⟩
      · have hwall := (hends.toEnd_eq.2.1 e).1 hfailure
        have hstop := hupTo.stop_le _ hok
        have hreach := hupTo.reach_le
        have hmax : max o.reach (o.stop + 1) = max o.reach (o.stop + 1) - 1 + 1 := by omega
        rw [hmax, hends.rejection_of_error hwall (by omega)]
        exact .lexical hfailure
  · obtain ⟨hok, mark, hmark, hkind⟩ := conclusion_eq_ok_iff.1 hconclusion
    obtain hstop := hends.eq_of_endMarker (hupTo.stop_le _ hok) hmark hkind
    exact .script script (hends.failure_of_token (hstop ▸ hmark))

end

section

variable {name text : String} {tab : TabStop} {wall fuel : Nat}

/-- A line that is not empty goes up to the first newline from its beginning on. -/
theorem exists_newline (hends : (ofSource (.ofText name text tab)).EndsAt wall) {mark : Token}
    (hmark : (ofSource (.ofText name text tab)).item wall = .ok (some mark)) {pos : Nat}
    (hpos : pos < wall) :
    let lexer := ofSource (.ofText name text tab)
    ∃ n, pos ≤ n ∧ n < wall ∧
      Wall lexer.item (fun t => t.kind = .newline ∨ t.kind = .endMarker) n ∧
      ∀ i t, pos ≤ i → i < n → lexer.item i = .ok (some t) → t.kind ≠ .newline := by
  intro lexer
  obtain ⟨m, newline, rfl, hnewline, hbreak⟩ := newline_of_endMarker hends hmark
  have hexists : ∃ n, pos ≤ n ∧ ∃ t, lexer.item n = .ok (some t) ∧ t.kind = .newline :=
    ⟨m, Nat.le_of_lt_succ hpos, newline, hnewline, hbreak⟩
  classical
  obtain ⟨hle, first, hfirst, hkind⟩ := Nat.find_spec hexists
  refine ⟨Nat.find hexists, hle, ?_, fun t ht => ?_, fun i t hi hlt ht hkind => ?_⟩
  · exact Nat.lt_succ_of_le
      (Nat.find_min' hexists ⟨Nat.le_of_lt_succ hpos, newline, hnewline, hbreak⟩)
  · obtain rfl : first = t := by simpa [hfirst] using ht
    exact .inl hkind
  · exact Nat.find_min hexists hlt ⟨hi, t, ht, hkind⟩

/-- A token of the line that no rule fits is blamed. -/
theorem rejection_eq (hends : (ofSource (.ofText name text tab)).EndsAt wall) {t : Token} :
    let lexer := ofSource (.ofText name text tab)
    let o := linesOutcome (lexer.comesTo fuel .scriptLine) fuel .empty 0
    lexer.StuckAt o t → ∃ n last, n < wall ∧ lexer.item n = .ok (some last) ∧
      last.line = t.line ∧ lexer.rejection (max o.reach (o.stop + 1)) =
        .fatal (.located (lexer.toEnd.final.blame .unrecognized last)) := by
  rintro lexer o ⟨⟨script, hok⟩, ht, hkind, hfailure⟩
  have hregular : lexer.Regular := regular_ofSource name text tab
  obtain ⟨mark, hmark, hmarker⟩ : ∃ mark, lexer.item wall = .ok (some mark) ∧
    mark.kind = .endMarker := hends.endMarker_of_failure hfailure
  have hstop : o.stop < wall := by
    have hle := (linesOutcome_upTo hends.wall fuel .empty 0 (Nat.zero_le wall)).stop_le _ hok
    refine Nat.lt_of_le_of_ne hle fun heq => hkind ?_
    obtain rfl : mark = t := by simpa [heq, hmark] using ht
    exact hmarker
  -- the lines look no farther than the newline of the last one of them
  obtain ⟨w, hle, hlt, hwall, hnewline⟩ := exists_newline hends hmark hstop
  have hreach : o.reach ≤ w + 1 :=
    linesOutcome_reach_le (lexer.comesTo_advances fuel .scriptLine) hok fun p hp =>
      (comesTo_scriptLine_before hwall (hp.trans hle) fuel).reach_le
  obtain ⟨n, hn⟩ : ∃ n, max o.reach (o.stop + 1) = n + 1 :=
    ⟨_, (Nat.sub_add_cancel (by omega)).symm⟩
  obtain ⟨last, hlast, -⟩ := hends.not_wall n (by omega)
  refine ⟨n, last, by omega, hlast, ?_, ?_⟩
  · have htokens : ∀ i < n, ∃ t, lexer.item i = .ok (some t) := fun i hi => by
      obtain ⟨t, hit, -⟩ := hends.not_wall i (by omega)
      exact ⟨t, hit⟩
    have hline := (hregular.line_le (show o.stop ≤ n by omega) htokens).2
      fun i t hi hlt => hnewline i t hi (by omega)
    rw [(hregular.item_ok hlast).token_line, hline, (hregular.item_ok ht).token_line]
  · rw [hn, rejection, Nat.add_sub_cancel, hlast]
    dsimp only
    rw [hends.diagnosis_eq (by omega), hfailure]

end

end Lexer

/-- What becomes of a text, for every amount of fuel that is enough. -/
theorem Script.ofSource_concludes (name text : String) (tab : TabStop) {fuel : Nat}
    (hfuel : Parser.fuel (.ofLexer (.ofSource (.ofText name text tab))) ≤ fuel) :
    let lexer := Lexer.ofSource (.ofText name text tab)
    lexer.Concludes (linesOutcome (lexer.comesTo fuel .scriptLine) fuel .empty 0)
      (Script.ofSource (.ofText name text tab)) := by
  intro lexer
  obtain ⟨wall, hwall, hends⟩ := lexer.exists_endsAt
  rw [ofSource_eq_conclusion hfuel]
  exact hends.concludes ((fuelFor_le_fuel_ofLexer hwall).trans hfuel)

/-- An error is one of the lexer, or it blames a token that the lexer has given. A newline is
blamed only if no rule fits a line, and the end marker never is. -/
theorem Script.ofSource_blames {name text : String} {tab : TabStop} {d : Diagnostic}
    (h : Script.ofSource (.ofText name text tab) = .error (.fatal (.located d))) :
    let lexer := Lexer.ofSource (.ofText name text tab)
    (∃ n, lexer.item n = .error (.located d)) ∨
      ∃ n t, lexer.item n = .ok (some t) ∧ t.kind ≠ .endMarker ∧
        ((t.kind ≠ .newline ∧ ∃ m cause, n < m ∧ d = (lexer.after m).blame cause t) ∨
          t ∈ lexer.toEnd.tokens ∧ d = lexer.toEnd.final.blame .unrecognized t) := by
  intro lexer
  obtain ⟨wall, hwall, hends⟩ := lexer.exists_endsAt
  have hconcludes := Script.ofSource_concludes name text tab (Nat.le_refl _)
  rw [h] at hconcludes
  obtain hfailure | ⟨blame, n, -, hn, hitem, hkind, rfl⟩ | ⟨t, hstuck, hrejection⟩ :=
    hconcludes.located
  · exact .inl ⟨wall, (hends.toEnd_eq.2.1 _).1 hfailure⟩
  · exact .inr ⟨n, blame.token, hitem, hkind.2, .inl ⟨hkind.1, _, _, hn, rfl⟩⟩
  · obtain ⟨n, last, hn, hlast, -, heq⟩ := Lexer.rejection_eq hends hstuck
    obtain ⟨last', hlast', hkind⟩ := hends.not_wall n hn
    obtain rfl : last = last' := by simpa [show lexer.item n = _ from hlast] using hlast'
    obtain rfl : _ = d := by simpa using heq.symm.trans hrejection
    exact .inr ⟨n, last, hlast, hkind,
      .inr ⟨List.mem_of_getElem? ((hends.toEnd_eq.2.2 n last).2 ⟨hn.le, hlast⟩), rfl⟩⟩

end OpticScript
