import OpticScript.Proofs.Script.Failure

/-!
# The first bad line

If no rule fits a line of a text, the lines before it are a script of their own
(`Followed.exists_ok`). With this line they are none (`Followed.line_lt`) : they would be
read up to their end, and then it is a line after them that no rule fits. The token that is
blamed stands on the line, and so a syntax error is always found on the first bad line
(`Script.ofSource_firstLines`).
-/

namespace OpticScript

open Packrat Packrat.Outcome

namespace Lexer.Followed

variable {lexer : Lexer} {more : List Piece} {wall fuel : Nat} {t : Token} {script : Script}

/-- Lines before a line that no rule fits are a script. -/
theorem exists_ok (h : lexer.Followed more wall) (hfuel : fuelFor wall 0 ≤ fuel)
    (hopeners : lexer.openers = []) (hline : (lexer.after wall).lines.size < t.line) :
    let whole := lexer.within #[] more
    whole.StuckAt (linesOutcome (whole.comesTo fuel .scriptLine) fuel .empty 0) t →
      ∃ script, lexer.conclusion (linesOutcome (lexer.comesTo fuel .scriptLine) fuel .empty 0) =
        .ok script := by
  rintro whole ⟨⟨script, hok⟩, hitem, hkind, hfailure⟩
  have hex : (lexer.after wall).Exhausted := by
    by_contra hex
    obtain ⟨⟨e, he⟩, heq⟩ := h.endsAt.broken h.regular h.more_ne_nil h.left hex
    have hends : whole.EndsAt wall :=
      (h.seam_broken hex).endsAt_of_error h.endsAt (Nat.le_succ wall) (heq.trans he)
    simp [hends.failure_of_error (heq.trans he)] at hfailure
  have hseam := h.seam_exhausted hex
  rcases hseam.reads_or_eq h.endsAt (Nat.le_succ wall) hfuel fuel with
    ⟨m, script', hreads⟩ | ⟨heq, -, hstop⟩
  · exact ⟨script', h.conclusion_of_reads hfuel hopeners hex hreads⟩
  · -- then no rule fits a line before them
    rw [heq] at hok hitem
    have hlt := hstop _ hok
    rw [hseam.item_eq _ hlt] at hitem
    exact absurd (h.line_le hlt hitem) (Nat.not_le_of_lt hline)

/-- After lines that are a script comes a line that no rule fits. -/
theorem line_lt (h : lexer.Followed more wall) (hfuel : fuelFor wall 0 ≤ fuel)
    (hscript : lexer.conclusion (linesOutcome (lexer.comesTo fuel .scriptLine) fuel .empty 0) =
      .ok script) :
    let whole := lexer.within #[] more
    whole.StuckAt (linesOutcome (whole.comesTo fuel .scriptLine) fuel .empty 0) t →
      (lexer.after wall).lines.size < t.line := by
  rintro whole ⟨⟨script', hok⟩, hitem, -, -⟩
  obtain ⟨hex, -, m, hreads⟩ := h.reads_of_ok hfuel hscript
  obtain ⟨hm, hlines⟩ := h.linesOutcome_eq hex hfuel hreads
  set o := linesOutcome (whole.comesTo fuel .scriptLine) fuel .empty 0 with ho
  have hle : wall ≤ o.stop := by
    have hrounds : fuel - m + m = fuel := Nat.sub_add_cancel (by unfold fuelFor at hfuel; omega)
    have heq := hlines (fuel - m)
    rw [hrounds] at heq
    rw [ho, show linesOutcome (whole.comesTo fuel .scriptLine) fuel .empty 0 = _ from heq]
    exact (linesOutcome_within (whole.comesTo_advances fuel .scriptLine) _ _ _).le_stop
  obtain ⟨hregular, hafter⟩ := h.after_eq fun i hi => h.left_of_lt hi
  have hnext : (whole.after wall).line = (lexer.after wall).lines.size + 1 := by
    rw [show whole.after wall = _ from hafter]
    simpa [within] using hregular.next_line hex.1 (by simp [within, h.more_ne_nil])
  obtain ⟨wall', -, hends⟩ := whole.exists_endsAt
  have hstop : o.stop ≤ wall' :=
    (linesOutcome_upTo hends.wall fuel .empty 0 (Nat.zero_le wall')).stop_le _ hok
  have hmono := (h.regular.line_le hle fun i hi => by
    obtain ⟨t, ht, -⟩ := hends.not_wall i (by omega)
    exact ⟨t, ht⟩).1
  have htoken := (h.regular.item_ok hitem).token_line
  change (whole.after wall).line ≤ (whole.after o.stop).line at hmono
  change t.line = (whole.after o.stop).line at htoken
  omega

end Lexer.Followed

/-! ## Texts -/

section

variable {name a : String} {tab : TabStop} {fuel : Nat} {t : Token}

/-- No more lines are read than the text has. -/
theorem Lexer.lines_size_le (n : Nat) :
    ((Lexer.ofSource (.ofText name a tab)).after n).lines.size ≤ (Text.lines a.toList).length := by
  obtain ⟨more, hlines, -⟩ := Lexer.texts_after name a tab n
  simp [hlines, Lexer.texts]

/-- A token is blamed because no rule fits a line. -/
theorem Script.stuckAt {d : Diagnostic}
    (h : Script.ofSource (.ofText name a tab) = .error (.fatal (.located d)))
    (hcause : d.cause = .unrecognized)
    (hfuel : Parser.fuel (.ofLexer (.ofSource (.ofText name a tab))) ≤ fuel) :
    let lexer := Lexer.ofSource (.ofText name a tab)
    let o := linesOutcome (lexer.comesTo fuel .scriptLine) fuel .empty 0
    ∃ t, lexer.StuckAt o t ∧ lexer.rejection (max o.reach (o.stop + 1)) = .fatal (.located d) := by
  intro lexer o
  have hfailure := Script.toEnd_failure_eq_none h hcause
  have hconcludes := Script.ofSource_concludes name a tab hfuel
  rw [h] at hconcludes
  obtain hlexical | ⟨blame, n, hgrammatical, -, -, -, rfl⟩ | hstuck := hconcludes.located
  · simp [hfailure] at hlexical
  · exact absurd hcause (Cause.ne_unrecognized (.inr hgrammatical))
  · exact hstuck

/-- The token that is blamed stands on the line that no rule fits, and the error shows the
line. -/
theorem Lexer.StuckAt.blamed {d : Diagnostic} (ha : a ≠ "") :
    let lexer := Lexer.ofSource (.ofText name a tab)
    let o := linesOutcome (lexer.comesTo fuel .scriptLine) fuel .empty 0
    lexer.StuckAt o t → lexer.rejection (max o.reach (o.stop + 1)) = .fatal (.located d) →
      d.line = t.line ∧
        (∃ t' ∈ lexer.toEnd.tokens, t'.kind ≠ .endMarker ∧ t'.line = d.line ∧
          t'.startColumn = d.startColumn ∧ t'.stopColumn = d.endColumn ∧ t'.text = d.text) ∧
        1 ≤ d.line ∧ ∃ line, (Text.lines a.toList)[d.line - 1]? = some line ∧
          d.context =
            some (String.ofList (tab.expand (line.takeWhile fun c => !Text.isLineBreak c))) := by
  intro lexer o hstuck hrejection
  have hregular : lexer.Regular := Lexer.regular_ofSource name a tab
  obtain ⟨wall, -, hends⟩ := lexer.exists_endsAt
  obtain ⟨mark, hmark, -⟩ := hends.endMarker_of_failure hstuck.failure_eq
  obtain ⟨n, last, hn, hlast, hline, heq⟩ := Lexer.rejection_eq hends hstuck
  obtain rfl : lexer.toEnd.final.blame .unrecognized last = d := by
    simpa using heq.symm.trans hrejection
  have hpos : 1 ≤ last.line := hregular.item_line_pos hlast
  have hkind : last.kind ≠ .endMarker := fun hkind =>
    absurd (hends.eq_of_endMarker hn.le hlast hkind) hn.ne
  have htexts := (Lexer.between_final hends hmark).2.2.1
  have hne : Text.lines a.toList ≠ [] := fun hnil =>
    ha (String.toList_eq_nil_iff.1 (Text.lines_eq_nil hnil))
  obtain ⟨line, hget⟩ : ∃ line, (Text.lines a.toList)[last.line - 1]? = some line := by
    obtain ⟨part, rest, -, hget, -⟩ := Lexer.readFrom_lines hends hne hn.le hlast hkind
    obtain ⟨more, hlines, -⟩ := Lexer.texts_after name a tab (n + 1)
    rw [hlines, List.getElem?_append_left (List.getElem?_eq_some_iff.1 hget).1]
    exact ⟨_, hget⟩
  refine ⟨hline, ⟨last, ?_, hkind, rfl, rfl, rfl, rfl⟩, hpos, line, hget, ?_⟩
  · exact List.mem_of_getElem? ((hends.toEnd_eq.2.2 n last).2 ⟨hn.le, hlast⟩)
  · have htab : lexer.toEnd.final.tab = tab := by
      rw [hends.toEnd_eq.1]
      exact (hregular.onward (Nat.zero_le (wall + 1))).tab_eq
    rw [← htab]
    exact Lexer.sourceLine_eq hpos (by rw [htexts]; exact hget)
      (Text.isLine_of_mem_lines (List.mem_of_getElem? hget))

/-- The first lines of a text are followed by the others. -/
theorem Lexer.followed_firstLines {n : Nat} (hpos : 0 < n) (hn : n < (Text.lines a.toList).length) :
    let lexer := Lexer.ofSource (.ofText name (Text.firstLines a n) tab)
    ∃ wall more, fuelFor wall 0 ≤ Parser.fuel (.ofLexer lexer) ∧ lexer.Followed more wall ∧
      Lexer.ofSource (.ofText name a tab) = lexer.within #[] more := by
  obtain ⟨rest, happ, hrest⟩ := Text.exists_append_firstLines a n
  have hfirst := Text.lines_firstLines a n
  have hlines : Text.lines (Text.firstLines a n ++ rest).toList =
      Text.lines (Text.firstLines a n).toList ++ Text.lines rest.toList := by
    rw [← happ, hfirst, hrest, List.take_append_drop]
  have hne : Text.firstLines a n ≠ "" := by
    intro hnil
    have hlength := congrArg List.length hfirst
    simp [hnil, Text.lines] at hlength
    omega
  have hne' : rest ≠ "" := by
    intro hnil
    have hlength := congrArg List.length hrest
    simp [hnil, Text.lines] at hlength
    omega
  obtain ⟨wall, hwall, h⟩ := Lexer.followed_of_lines name tab hlines hne hne'
  have hwithin := Lexer.ofSource_within_of_lines name tab hlines
  rw [← happ] at hwithin
  exact ⟨wall, Piece.ofText rest, hwall, h, hwithin⟩

section

variable {n : Nat} (hn : n < (Text.lines a.toList).length)
  (hfuel : Parser.fuel (.ofLexer (.ofSource (.ofText name (Text.firstLines a n) tab))) ≤ fuel)

include hn hfuel

/-- The lines before a line that no rule fits are a script. -/
theorem Script.exists_ok_firstLines (hline : n < t.line) :
    let lexer := Lexer.ofSource (.ofText name a tab)
    lexer.StuckAt (linesOutcome (lexer.comesTo fuel .scriptLine) fuel .empty 0) t →
      ∃ script, Script.ofSource (.ofText name (Text.firstLines a n) tab) = .ok script := by
  intro lexer hstuck
  rcases Nat.eq_zero_or_pos n with rfl | hpos
  · exact ⟨.empty, Script.ofSource_nil name tab⟩
  · obtain ⟨wall, more, hwall, h, hwithin⟩ := Lexer.followed_firstLines hpos hn
    rw [show lexer = _ from hwithin] at hstuck
    rw [ofSource_eq_conclusion hfuel]
    refine h.exists_ok (hwall.trans hfuel) rfl ((Lexer.lines_size_le wall).trans_lt ?_) hstuck
    rw [Text.lines_firstLines, List.length_take]
    omega

/-- A line that no rule fits comes after the lines that are a script. -/
theorem Script.line_lt_of_firstLines {script : Script} (hpos : 0 < n)
    (hscript : Script.ofSource (.ofText name (Text.firstLines a n) tab) = .ok script) :
    let lexer := Lexer.ofSource (.ofText name a tab)
    lexer.StuckAt (linesOutcome (lexer.comesTo fuel .scriptLine) fuel .empty 0) t → n < t.line := by
  intro lexer hstuck
  obtain ⟨wall, more, hwall, h, hwithin⟩ := Lexer.followed_firstLines hpos hn
  rw [show lexer = _ from hwithin] at hstuck
  rw [ofSource_eq_conclusion hfuel] at hscript
  have hex := (h.reads_of_ok (hwall.trans hfuel) hscript).1
  have hlt := h.line_lt (hwall.trans hfuel) hscript hstuck
  rwa [Lexer.lines_size_eq hex, Text.lines_firstLines, List.length_take, Nat.min_eq_left hn.le]
    at hlt

end

end

/-- A syntax error is found on the first bad line of a text : the lines before it are a script,
and with it they are none. The token that is blamed is one of this line, and the error shows
the line. -/
theorem Script.ofSource_firstLines {name text : String} {tab : TabStop} {d : Diagnostic}
    (h : Script.ofSource (.ofText name text tab) = .error (.fatal (.located d)))
    (hmessage : d.message = "syntax error") :
    (∃ script, Script.ofSource (.ofText name (Text.firstLines text (d.line - 1)) tab) =
      .ok script) ∧
      (∀ script, Script.ofSource (.ofText name (Text.firstLines text d.line) tab) ≠ .ok script) ∧
      (∃ t ∈ (Lexer.ofSource (.ofText name text tab)).toEnd.tokens, t.kind ≠ .endMarker ∧
        t.line = d.line ∧ t.startColumn = d.startColumn ∧ t.stopColumn = d.endColumn ∧
        t.text = d.text) ∧
      1 ≤ d.line ∧ ∃ line, (Text.lines text.toList)[d.line - 1]? = some line ∧
        d.context =
          some (String.ofList (tab.expand (line.takeWhile fun c => !Text.isLineBreak c))) := by
  have hne : text ≠ "" := by
    rintro rfl
    simp [Script.ofSource_nil] at h
  have hcause : d.cause = .unrecognized := by
    obtain ⟨d', hd, hcause⟩ := Script.ofSource_located h
    obtain rfl : d = d' := by simpa using hd
    rcases hcause with hcause | hcause | hcause
    · exact absurd hmessage (Cause.message_ne (.inl hcause))
    · exact absurd hmessage (Cause.message_ne (.inr hcause))
    · exact hcause
  -- fuel that is enough for the text and for its first lines
  obtain ⟨fuel, hfuel, hbefore, hupTo⟩ : ∃ fuel,
      Parser.fuel (.ofLexer (.ofSource (.ofText name text tab))) ≤ fuel ∧
      Parser.fuel (.ofLexer (.ofSource (.ofText name (Text.firstLines text (d.line - 1)) tab))) ≤
        fuel ∧
      Parser.fuel (.ofLexer (.ofSource (.ofText name (Text.firstLines text d.line) tab))) ≤ fuel :=
    ⟨_, le_max_left _ _, (le_max_left _ _).trans (le_max_right _ _),
      (le_max_right _ _).trans (le_max_right _ _)⟩
  obtain ⟨t, hstuck, hrejection⟩ := Script.stuckAt h hcause hfuel
  obtain ⟨hline, htoken, hpos, line, hget, hcontext⟩ := hstuck.blamed hne hrejection
  have hlt := (List.getElem?_eq_some_iff.1 hget).1
  refine ⟨?_, fun script hscript => ?_, htoken, hpos, line, hget, hcontext⟩
  · exact Script.exists_ok_firstLines hlt hbefore (by omega) hstuck
  · rcases Nat.lt_or_ge d.line (Text.lines text.toList).length with hn | hn
    · have := Script.line_lt_of_firstLines hn hupTo hpos hscript hstuck
      omega
    · rw [Text.firstLines_of_length_le hn, h] at hscript
      simp at hscript

/-- A value too many in the second line of three. -/
theorem Script.ofSource_firstLines_three_lines :
    let d : Diagnostic := { cause := .unrecognized, source := "", line := 2, startColumn := 5,
                            endColumn := 6, text := "y", context := some "m x y" }
    Script.ofSource (.ofText "" "m x\nm x y\nm z") = .error (.fatal (.located d)) ∧
      (∃ script, Script.ofSource (.ofText "" "m x\n") = .ok script) ∧
      ∀ script, Script.ofSource (.ofText "" "m x\nm x y\n") ≠ .ok script := by
  intro d
  have herror : Script.ofSource (.ofText "" "m x\nm x y\nm z") = .error (.fatal (.located d)) := by
    rw [Script.ofSource_eq_verdict]
    decide +kernel
  obtain ⟨hbefore, hwith, -⟩ := Script.ofSource_firstLines herror rfl
  exact ⟨herror, hbefore, hwith⟩

end OpticScript
