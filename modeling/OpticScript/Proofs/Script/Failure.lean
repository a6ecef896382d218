import OpticScript.Proofs.Script.Append

/-!
# A text after an error

Two texts of which the first one ends in a line feed and is no script. Either the lines
of the first one come to an error that is the same for the whole (`Seam.lines_error`), or
no rule fits a line and the lexer goes on to look for an error of its own. That one may be
in the second text only if all brackets of the first one are closed
(`Followed.rejection_closed`). A bracket that is left open stays so for the lines of the
first text, and they are never a script (`Followed.fate`, `Script.ofSource_append_error`).
-/

namespace OpticScript

open Packrat Packrat.Outcome

namespace Lexer

section

variable {lexer whole : Lexer} {n wall fuel : Nat} {o : Outcome Blame ScriptError Script}
  {halt : Halt ScriptError}

/-- An error before the seam is one of the whole, or no rule fits a line. -/
theorem Seam.conclusion_error (h : lexer.Seam whole n) (hregular : lexer.Regular)
    (hfinishes : o.Finishes)
    (hitems : ∀ e, o.answer = .error (.item e) → ∃ i < o.reach, lexer.item i = .error e)
    (hcomplaints : ∀ blame, o.answer = .error (.complaint blame) → blame.cause.Grammatical)
    (hreach : o.reach ≤ n) (hstop : o.Ensures fun _ stop => stop < n)
    (herror : lexer.conclusion o = .error halt) :
    (whole.conclusion o = .error halt ∧ ∃ d, halt = .fatal (.located d) ∧
      ((∃ i < n, lexer.item i = .error (.located d)) ∨ d.cause.Grammatical)) ∨
    ∃ m < n, halt = lexer.rejection (m + 1) ∧
      whole.conclusion o = .error (whole.rejection (m + 1)) := by
  rcases (conclusion_eq_error_iff hfinishes).1 herror with
    ⟨e, he, rfl⟩ | ⟨blame, hblame, rfl⟩ | ⟨script, hok, ⟨e, he, rfl⟩ | ⟨t, ht, hkind, rfl⟩⟩
  · obtain ⟨i, hi, hitem⟩ := hitems e he
    obtain ⟨d, rfl, -⟩ := hregular.item_lexical hitem
    exact .inl ⟨(conclusion_eq_error_iff hfinishes).2 (.inl ⟨_, he, rfl⟩), d, rfl,
      .inl ⟨i, hi.trans_le hreach, hitem⟩⟩
  · refine .inl ⟨?_, _, rfl, .inr (hcomplaints blame hblame)⟩
    rw [← h.blame_eq _ hreach]
    exact (conclusion_eq_error_iff hfinishes).2 (.inr (.inl ⟨blame, hblame, rfl⟩))
  · obtain ⟨d, rfl, -⟩ := hregular.item_lexical he
    refine .inl ⟨(conclusion_eq_error_iff hfinishes).2 ?_, d, rfl, .inl ⟨_, hstop _ hok, he⟩⟩
    rw [← h.item_eq _ (hstop _ hok)] at he
    exact .inr (.inr ⟨script, hok, .inl ⟨_, he, rfl⟩⟩)
  · rw [← h.item_eq _ (hstop _ hok)] at ht
    have hlt := hstop _ hok
    have hmax : max o.reach (o.stop + 1) = max o.reach (o.stop + 1) - 1 + 1 := by omega
    refine .inr ⟨max o.reach (o.stop + 1) - 1, by omega, by rw [← hmax], ?_⟩
    rw [← hmax]
    exact (conclusion_eq_error_iff hfinishes).2
      (.inr (.inr ⟨script, hok, .inr ⟨t, ht, hkind, rfl⟩⟩))

/-- The lines that come to an error : they are read up to the seam, or the error is one of
the whole, or no rule fits a line. -/
theorem Seam.lines_error (h : lexer.Seam whole n) (hregular : lexer.Regular)
    (hends : lexer.EndsAt wall) (hn : n ≤ wall + 1) (hfuel : fuelFor wall 0 ≤ fuel)
    (herror : lexer.conclusion (linesOutcome (lexer.comesTo fuel .scriptLine) fuel .empty 0) =
      .error halt) :
    let o := linesOutcome (whole.comesTo fuel .scriptLine) fuel .empty 0
    (∃ m script, Reads (lexer.comesTo fuel .scriptLine) .empty 0 m script n) ∨
      (whole.conclusion o = .error halt ∧ ∃ d, halt = .fatal (.located d) ∧
        ((∃ i < n, lexer.item i = .error (.located d)) ∨ d.cause.Grammatical)) ∨
      ∃ m < n, halt = lexer.rejection (m + 1) ∧
        whole.conclusion o = .error (whole.rejection (m + 1)) := by
  intro o
  have hfinishes := Lexer.lines_finish hends.wall (Nat.zero_le wall) hfuel
  refine (h.reads_or_eq hends hn hfuel fuel).imp_right ?_
  rintro ⟨heq, hreach, hstop⟩
  rw [show o = _ from heq]
  exact h.conclusion_error hregular hfinishes (fun _ he => linesOutcome_item he)
    (fun _ hblame => (linesOutcome_complaint hblame).1) hreach hstop herror

/-- An error of the lexer or of the grammar does not blame a line that fits no rule. -/
theorem Regular.ne_unrecognized (h : lexer.Regular) {d : Diagnostic}
    (hd : (∃ i < n, lexer.item i = .error (.located d)) ∨ d.cause.Grammatical) :
    d.cause ≠ .unrecognized := by
  refine Cause.ne_unrecognized (hd.imp_left ?_)
  rintro ⟨i, -, hitem⟩
  obtain ⟨d', heq, hcause⟩ := h.item_lexical hitem
  obtain rfl := ScriptError.located.inj heq
  exact hcause

/-- The tokens before the end are there for the whole. -/
theorem Seam.token (h : lexer.Seam whole n) (hends : lexer.EndsAt wall) (hn : wall ≤ n) :
    ∀ i < wall, ∃ t, whole.item i = .ok (some t) ∧ t.kind ≠ .endMarker := by
  intro i hi
  obtain ⟨t, ht, hkind⟩ := hends.not_wall i hi
  exact ⟨t, (h.item_eq i (Nat.lt_of_lt_of_le hi hn)).trans ht, hkind⟩

theorem Seam.endsAt_of_error (h : lexer.Seam whole n) (hends : lexer.EndsAt wall) (hn : wall ≤ n)
    {e : ScriptError} (he : whole.item wall = .error e) : whole.EndsAt wall :=
  ⟨fun t ht => by simp [he] at ht, h.token hends hn⟩

end

namespace Followed

variable {lexer : Lexer} {more : List Piece} {n wall fuel : Nat}

/-- A token stands on a line that has been read when the lines are used up. -/
theorem line_le (h : lexer.Followed more wall) (hn : n < wall) {t : Token}
    (ht : lexer.item n = .ok (some t)) : t.line ≤ (lexer.after wall).lines.size := by
  have hregular := (h.after_eq fun i hi => h.left_of_lt (hi.trans hn)).1
  have hle := (hregular.nextToken_ok h.more_ne_nil (h.left_of_lt hn) (item_eq_ok_iff.1 ht)).1
  exact hle.trans (h.regular.of_within.onward (Nat.succ_le_of_lt hn)).size_le

/-- With all brackets closed, the token that no rule fits is blamed as before unless the
lexer finds an error in what follows. -/
theorem rejection_closed (h : lexer.Followed more wall) (hex : (lexer.after wall).Exhausted)
    {mark : Token} (hmark : lexer.item wall = .ok (some mark)) (hn : n < wall) :
    ∃ d, lexer.rejection (n + 1) = .fatal (.located d) ∧ d.cause = .unrecognized ∧
      (lexer.within #[] more).rejection (n + 1) =
        .fatal ((lexer.within #[] more).toEnd.failure.getD (.located d)) := by
  obtain ⟨last, hlast, -⟩ := h.endsAt.not_wall n hn
  have hseam := h.seam_exhausted hex
  obtain ⟨m, -, hrest⟩ := ((lexer.within #[] more).after wall).exists_endsAt
  have hends := hrest.of_after (hseam.token h.endsAt (Nat.le_refl wall))
  refine ⟨(lexer.after wall).blame .unrecognized last, ?_, rfl, ?_⟩
  · unfold rejection
    rw [Nat.add_sub_cancel, hlast]
    dsimp only
    rw [h.endsAt.diagnosis_eq hn, h.endsAt.failure_of_token hmark, h.endsAt.toEnd_eq.1,
      (h.item_exhausted hex).1]
  · have hlines : (lexer.after wall).lines.size =
        ((lexer.within #[] more).after wall).lines.size := by
      rw [(h.after_eq fun i hi => h.left_of_lt hi).2]
      simp [within]
    have hblame : ((lexer.within #[] more).after (wall + m + 1)).blame .unrecognized last =
        (lexer.after wall).blame .unrecognized last := by
      have honward := h.regular.onward (show wall ≤ wall + m + 1 by omega)
      rw [honward.blame_eq _ (hlines ▸ h.line_le hn hlast), hseam.blame_eq wall (Nat.le_refl wall)]
    unfold rejection
    rw [Nat.add_sub_cancel, hseam.item_eq n hn, hlast]
    dsimp only
    rw [hends.diagnosis_eq (by omega), hends.toEnd_eq.1, hblame]
    cases (lexer.within #[] more).toEnd.failure <;> rfl

/-- What becomes of the error `d` of a lexer for the whole. -/
inductive Fate (lexer whole : Lexer) (wall : Nat) (d : Diagnostic) :
    Except (Halt ScriptError) Script → Prop
  /-- It is found whatever comes after it. -/
  | same (h : d.cause ≠ .unrecognized) : Fate lexer whole wall d (.error (.fatal (.located d)))
  /-- A bracket is left open, and what comes after it decides about the error. -/
  | unclosed {bracket : String} (h : d.cause = .unclosed bracket) (halt : Halt ScriptError) :
      Fate lexer whole wall d (.error halt)
  /-- A token is blamed, if the lexer finds nothing wrong with what comes after it. -/
  | scanned (h : d.cause = .unrecognized) (hex : (lexer.after wall).Exhausted)
      (hopeners : (lexer.after wall).openers = []) :
      Fate lexer whole wall d (.error (.fatal (whole.toEnd.failure.getD (.located d))))

section

variable {halt : Halt ScriptError}

theorem fate_exhausted (h : lexer.Followed more wall) (hfuel : fuelFor wall 0 ≤ fuel)
    (hopeners : lexer.openers = []) (hex : (lexer.after wall).Exhausted)
    (herror : lexer.conclusion (linesOutcome (lexer.comesTo fuel .scriptLine) fuel .empty 0) =
      .error halt) :
    let whole := lexer.within #[] more
    ∃ d, halt = .fatal (.located d) ∧ Fate lexer whole wall d
      (whole.conclusion (linesOutcome (whole.comesTo fuel .scriptLine) fuel .empty 0)) := by
  intro whole
  have hregular := h.regular.of_within
  obtain ⟨-, hclosed, hopen⟩ := h.item_exhausted hex
  rcases (h.seam_exhausted hex).lines_error hregular h.endsAt (Nat.le_succ wall) hfuel herror with
    ⟨m, script, hreads⟩ | ⟨hsame, d, rfl, hcause⟩ | ⟨n, hn, rfl, hwhole⟩
  · simp [h.conclusion_of_reads hfuel hopeners hex hreads] at herror
  · rw [hsame]
    exact ⟨d, rfl, .same (hregular.ne_unrecognized hcause)⟩
  · rw [hwhole]
    by_cases hbrackets : (lexer.after wall).openers = []
    · obtain ⟨mark, hmark, -⟩ := hclosed hbrackets
      obtain ⟨d, hd, hcause, hrejection⟩ := h.rejection_closed hex hmark hn
      rw [hrejection]
      exact ⟨d, hd, .scanned hcause hex hbrackets⟩
    · obtain ⟨opener, he⟩ := hopen hbrackets
      exact ⟨_, h.endsAt.rejection_of_error he (Nat.lt_succ_of_lt hn), .unclosed rfl _⟩

theorem fate_broken (h : lexer.Followed more wall) (hfuel : fuelFor wall 0 ≤ fuel)
    (hex : ¬(lexer.after wall).Exhausted)
    (herror : lexer.conclusion (linesOutcome (lexer.comesTo fuel .scriptLine) fuel .empty 0) =
      .error halt) :
    let whole := lexer.within #[] more
    ∃ d, halt = .fatal (.located d) ∧ Fate lexer whole wall d
      (whole.conclusion (linesOutcome (whole.comesTo fuel .scriptLine) fuel .empty 0)) := by
  intro whole
  have hregular := h.regular.of_within
  have hseam := h.seam_broken hex
  obtain ⟨⟨e, he⟩, hitem⟩ := h.endsAt.broken h.regular h.more_ne_nil h.left hex
  rcases hseam.lines_error hregular h.endsAt (Nat.le_refl _) hfuel herror with
    ⟨m, script, hreads⟩ | ⟨hsame, d, rfl, hcause⟩ | ⟨n, hn, rfl, hwhole⟩
  · have hle := hreads.le_wall h.endsAt.wall (Nat.zero_le wall)
    exact absurd hle (Nat.not_succ_le_self wall)
  · rw [hsame]
    exact ⟨d, rfl, .same (hregular.ne_unrecognized hcause)⟩
  · obtain ⟨d, rfl, hcause⟩ := hregular.item_lexical he
    have hends := hseam.endsAt_of_error h.endsAt (Nat.le_succ wall) (hitem.trans he)
    rw [hwhole, hends.rejection_of_error (hitem.trans he) hn]
    exact ⟨d, h.endsAt.rejection_of_error he hn, .same (Cause.ne_unrecognized (.inl hcause))⟩

/-- What becomes of an error when more lines follow. -/
theorem fate (h : lexer.Followed more wall) (hfuel : fuelFor wall 0 ≤ fuel)
    (hopeners : lexer.openers = [])
    (herror : lexer.conclusion (linesOutcome (lexer.comesTo fuel .scriptLine) fuel .empty 0) =
      .error halt) :
    let whole := lexer.within #[] more
    ∃ d, halt = .fatal (.located d) ∧ Fate lexer whole wall d
      (whole.conclusion (linesOutcome (whole.comesTo fuel .scriptLine) fuel .empty 0)) := by
  by_cases hex : (lexer.after wall).Exhausted
  · exact h.fate_exhausted hfuel hopeners hex herror
  · exact h.fate_broken hfuel hex herror

end

end Followed

end Lexer

/-! ## Texts -/

section

variable {name a b : String} {tab : TabStop} {wall : Nat}

/-- An error that the lexer finds after the first text is on a line of the second one. -/
theorem Lexer.failure_line (ha : a.toList.getLast? = some '\n')
    (h : (Lexer.ofSource (.ofText name a tab)).Followed (Piece.ofText b) wall)
    (hex : ((Lexer.ofSource (.ofText name a tab)).after wall).Exhausted)
    (hopeners : ((Lexer.ofSource (.ofText name a tab)).after wall).openers = [])
    {e : ScriptError} (he : (Lexer.ofSource (.ofText name (a ++ b) tab)).toEnd.failure = some e) :
    ∃ d, e = .located d ∧ (Text.lines a.toList).length < d.line ∧
      d.line ≤ (Text.lines (a ++ b).toList).length := by
  rw [Lexer.ofSource_within name tab ha] at he
  have hregular := Lexer.regular_ofSource name b tab
  have hbelow := h.below hex hopeners (.ofText name b tab) rfl rfl rfl hregular
  rw [Lexer.lines_size_eq hex] at hbelow
  obtain ⟨m, -, hends⟩ := (Lexer.ofSource (.ofText name b tab)).exists_endsAt
  have hwhole := ((hbelow.related hregular).endsAt hends).of_after
    ((h.seam_exhausted hex).token h.endsAt (Nat.le_refl wall))
  have hitem := (hwhole.toEnd_eq.2.1 e).1 he
  rw [Lexer.item_add] at hitem
  rcases hlast : (Lexer.ofSource (.ofText name b tab)).item m with e' | _ | t
  · obtain ⟨cause, t, -, rfl, hpos, hle⟩ := hregular.item_error hlast
    obtain rfl : _ = e := by simpa [hbelow.error m _ hlast] using hitem
    have hcount := (hregular.onward (Nat.zero_le (m + 1))).count
    have hsize : (Text.lines (a ++ b).toList).length =
        (Text.lines a.toList).length + (Text.lines b.toList).length := by
      rw [String.toList_append, Text.lines_append (by simp [ha]), List.length_append]
    have htotal : ((Lexer.ofSource (.ofText name b tab)).after (m + 1)).lines.size ≤
        (Text.lines b.toList).length := by
      have hunread : (Lexer.ofSource (.ofText name b tab)).unread.length =
        (Text.lines b.toList).length := List.length_map _
      have hlines : (Lexer.ofSource (.ofText name b tab)).lines.size = 0 := rfl
      rw [Lexer.after] at hcount
      omega
    refine ⟨_, rfl, ?_, ?_⟩
    · change _ < t.line + _
      omega
    · change t.line + _ ≤ _
      omega
  · exact absurd hlast (Lexer.item_ne_none m)
  · simp [hbelow.token m t hlast] at hitem

/-- An error is neither repaired nor replaced by what follows it. It stays the same unless
a bracket is not closed, or no rule fits a line and the lexer finds an error in what
follows. -/
theorem Script.ofSource_append_error (ha : a.toList.getLast? = some '\n') {halt : Halt ScriptError}
    (h : Script.ofSource (.ofText name a tab) = .error halt) :
    ∃ d, halt = .fatal (.located d) ∧
      (∃ halt', Script.ofSource (.ofText name (a ++ b) tab) = .error halt') ∧
      (d.cause ≠ .unrecognized → (∀ bracket, d.cause ≠ .unclosed bracket) →
        Script.ofSource (.ofText name (a ++ b) tab) = .error halt) ∧
      (d.cause = .unrecognized →
        match (Lexer.ofSource (.ofText name (a ++ b) tab)).toEnd.failure with
        | none => Script.ofSource (.ofText name (a ++ b) tab) = .error halt
        | some e => Script.ofSource (.ofText name (a ++ b) tab) = .error (.fatal e) ∧
            ∃ d', e = .located d' ∧ (Text.lines a.toList).length < d'.line ∧
              d'.line ≤ (Text.lines (a ++ b).toList).length) := by
  rcases eq_or_ne b "" with rfl | hb
  · obtain ⟨d, rfl, -⟩ := Script.ofSource_located h
    rw [String.append_empty]
    refine ⟨d, rfl, ⟨_, h⟩, fun _ _ => h, fun hcause => ?_⟩
    rw [Script.toEnd_failure_eq_none h hcause]
    exact h
  · obtain ⟨wall, hwall, hfollowed⟩ := Lexer.followed_ofText name tab ha hb
    -- fuel that is enough for the first text and for the whole
    obtain ⟨fuel, hfuel, hfuel'⟩ : ∃ fuel,
        Parser.fuel (.ofLexer (.ofSource (.ofText name (a ++ b) tab))) ≤ fuel ∧
          Parser.fuel (.ofLexer (.ofSource (.ofText name a tab))) ≤ fuel :=
      ⟨_, Nat.le_add_right _ _, Nat.le_add_left _ _⟩
    have hwhole := ofSource_eq_conclusion hfuel
    rw [Lexer.ofSource_within name tab ha] at hwhole
    have hconclusion := (ofSource_eq_conclusion hfuel').symm.trans h
    obtain ⟨d, rfl, hfate⟩ := hfollowed.fate (hwall.trans hfuel') rfl hconclusion
    rw [← hwhole, ← Lexer.ofSource_within name tab ha] at hfate
    refine ⟨d, rfl, ?_⟩
    generalize Script.ofSource (.ofText name (a ++ b) tab) = result at hfate
    cases hfate with
    | same hcause => exact ⟨⟨_, rfl⟩, fun _ _ => rfl, fun h => absurd h hcause⟩
    | unclosed hcause halt =>
      exact ⟨⟨halt, rfl⟩, fun _ hne => absurd hcause (hne _), by simp [hcause]⟩
    | scanned hcause hex hopeners =>
      refine ⟨⟨_, rfl⟩, fun hne => absurd hcause hne, fun _ => ?_⟩
      rcases hfailure : (Lexer.ofSource (.ofText name (a ++ b) tab)).toEnd.failure with _ | e
      · rfl
      · exact ⟨rfl, Lexer.failure_line ha hfollowed hex hopeners hfailure⟩

end

/-- A value too many in the first line, and a character that begins no token in the second. -/
theorem Script.ofSource_append_error_two_lines :
    let d : Diagnostic := { cause := .unrecognized, source := "", line := 1, startColumn := 5,
                            endColumn := 6, text := "y", context := some "m x y" }
    let d' : Diagnostic := { cause := .illegalCharacter '?', source := "", line := 2,
                             startColumn := 1, endColumn := 2, text := "?", context := some "?" }
    Script.ofSource (.ofText "" "m x y\n") = .error (.fatal (.located d)) ∧
      Script.ofSource (.ofText "" ("m x y\n" ++ "?")) = .error (.fatal (.located d')) := by
  intro d d'
  have herror : Script.ofSource (.ofText "" "m x y\n") = .error (.fatal (.located d)) := by
    rw [Script.ofSource_eq_verdict]
    decide +kernel
  have hfailure : (Lexer.ofSource (.ofText "" ("m x y\n" ++ "?"))).toEnd.failure =
      some (.located d') := by decide +kernel
  obtain ⟨d'', hd, -, -, hfurther⟩ :=
    Script.ofSource_append_error (b := "?") (show "m x y\n".toList.getLast? = some '\n' by decide)
      herror
  obtain rfl : d = d'' := by simpa using hd
  have hwhole := hfurther rfl
  rw [hfailure] at hwhole
  exact ⟨herror, hwhole.1⟩

end OpticScript
