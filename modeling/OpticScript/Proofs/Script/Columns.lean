import OpticScript.Proofs.Lexer.Columns
import OpticScript.Proofs.Parser.Blame
import OpticScript.Proofs.Script.Precedence

/-!
# What is shown under a line

The carets of a diagnostic stand under the text at fault and under nothing else
(`Diagnostic.Underlines`), since what is blamed stands at its columns in a line that the
lexer keeps. That holds of every error of the lexer, and of every error of a script but for
those that blame the newline of a line that no rule fits (`Script.ofText_columns`), as long as
the line can be shown. Tabs may be so wide that it cannot, and then the columns may begin at
zero again (`Script.ofText_columns_overflow`).
-/

namespace OpticScript

open Packrat

/-- The diagnostic shows its line, which has its text between two others with the tabs
expanded, and puts carets under this text. -/
structure Diagnostic.Underlines (d : Diagnostic) (tab : TabStop) (before after : List Char) :
    Prop where
  text_ne : d.text ≠ ""
  context_eq : d.context = some (String.ofList (before ++ tab.expand d.text.toList ++ after))
  startColumn_eq : d.startColumn.toNat = before.length + 1
  endColumn_eq : d.endColumn.toNat = (before ++ tab.expand d.text.toList).length + 1
  rendered_eq : d.rendered = .ofString (d.headline ++ "\n    "
    ++ String.ofList (before ++ tab.expand d.text.toList ++ after) ++ "\n    "
    ++ Diagnostic.run ' ' before.length ++ Diagnostic.run '^' (tab.expand d.text.toList).length)

/-- Carets stand under a text that stands at its columns. -/
theorem Diagnostic.exists_underlines {d : Diagnostic} {tab : TabStop} {line : String}
    (hcontext : d.context = some line) (hne : d.text ≠ "")
    (hshows : tab.Shows line d.startColumn.toNat d.endColumn.toNat d.text) :
    ∃ before after, d.Underlines tab before after := by
  obtain ⟨before, after, hline, hstart, hstop⟩ := hshows
  obtain rfl : line = String.ofList (before ++ tab.expand d.text.toList ++ after) := by
    rw [← hline, String.ofList_toList]
  have hpos : 0 < (tab.expand d.text.toList).length :=
    tab.length_expand_pos (mt String.toList_eq_nil_iff.1 hne)
  have hwidth : max (d.endColumn.toNat - d.startColumn.toNat) 1 =
      (tab.expand d.text.toList).length := by
    rw [hstart, hstop, List.length_append]
    omega
  refine ⟨before, after, hne, hcontext, hstart, hstop, ?_⟩
  rw [Diagnostic.rendered, Diagnostic.render, hcontext]
  dsimp only
  rw [hwidth, hstart, Nat.add_sub_cancel]

section

variable {name text : String} {tab : TabStop} {n m : Nat} {t : Token}

theorem Lexer.tab_after (name text : String) (tab : TabStop) (n : Nat) :
    ((ofSource (.ofText name text tab)).after n).tab = tab :=
  ((regular_ofSource name text tab).onward (Nat.zero_le n)).tab_eq

/-- The lines that a lexer keeps are the first lines of the text. -/
theorem Lexer.getElem_lines_of_texts {i : Nat} {line : List Char}
    (h : ((ofSource (.ofText name text tab)).after n).texts[i]? = some line) :
    (Text.lines text.toList)[i]? = some line := by
  obtain ⟨more, hlines, -⟩ := texts_after name text tab n
  rw [hlines, List.getElem?_append_left (List.getElem?_eq_some_iff.1 h).1, h]

/-- If a line of the text can be shown, the lexer can show it once it keeps it. -/
theorem Lexer.fits_sourceLine {number : Nat} (hfits : tab.FitsLine text number) (name : String)
    (n : Nat) :
    (((ofSource (.ofText name text tab)).after n).sourceLine? number).all tab.fits = true := by
  set lexer := (ofSource (.ofText name text tab)).after n with hlexer
  rcases hshown : lexer.sourceLine? number with _ | shown
  · rfl
  · have hpos : 1 ≤ number := by
      by_contra hzero
      simp [sourceLine?, Nat.lt_one_iff.1 (Nat.lt_of_not_le hzero)] at hshown
    rcases hget : lexer.texts[number - 1]? with _ | line
    · have hnone : lexer.lines[number - 1]? = none := by
        simpa [texts] using hget
      simp [sourceLine?, hnone] at hshown
    · rw [sourceLine_eq hpos hget (isLine_texts (List.mem_of_getElem? hget)), tab_after] at hshown
      obtain rfl := Option.some.inj hshown
      exact hfits line (getElem_lines_of_texts hget)

theorem Lexer.shownLine_eq {number : Nat} (hfits : tab.FitsLine text number) (name : String)
    (n : Nat) :
    ((ofSource (.ofText name text tab)).after n).shownLine number =
      .returns (((ofSource (.ofText name text tab)).after n).sourceLine? number) := by
  rw [shownLine, tab_after, fits_sourceLine hfits, Run.guarded, if_pos rfl]

/-- A token that stands at its columns is shown there. -/
theorem Lexer.Stands.shows (h : ((ofSource (.ofText name text tab)).after n).Stands t)
    (hfits : tab.FitsLine text t.line) :
    ∃ line, ((ofSource (.ofText name text tab)).after n).sourceLine? t.line = some line ∧
      tab.Shows line t.startColumn.toNat t.stopColumn.toNat t.text := by
  obtain ⟨line, hget, hspans⟩ := h.spans
  have hsource := sourceLine_eq h.line_pos hget (isLine_texts (List.mem_of_getElem? hget))
  rw [tab_after] at hspans hsource
  have hroom := TabStop.length_le_maxBytes (hfits line (getElem_lines_of_texts hget))
  exact ⟨_, hsource, hspans.shows (Nat.lt_of_le_of_lt (Nat.succ_le_succ hroom) (by decide))⟩

/-- Carets stand under a token that stands at its columns. -/
theorem Lexer.Stands.exists_underlines (h : ((ofSource (.ofText name text tab)).after n).Stands t)
    (hfits : tab.FitsLine text t.line) (cause : Cause) :
    ∃ before after,
      (((ofSource (.ofText name text tab)).after n).blame cause t).Underlines tab before after := by
  obtain ⟨line, hsource, hshows⟩ := h.shows hfits
  exact Diagnostic.exists_underlines
    (d := ((ofSource (.ofText name text tab)).after n).blame cause t) hsource h.text_ne hshows

/-- A newline stands behind the line that is shown. -/
theorem Lexer.Trails.startColumn_eq (h : ((ofSource (.ofText name text tab)).after n).Trails t)
    (hfits : tab.FitsLine text t.line) {line : String}
    (hline : ((ofSource (.ofText name text tab)).after n).sourceLine? t.line = some line) :
    t.startColumn.toNat = line.length + 1 := by
  cases h with
  | @line raw hpos hget hstart =>
    rw [sourceLine_eq hpos hget (isLine_texts (List.mem_of_getElem? hget))] at hline
    obtain rfl := Option.some.inj hline
    rw [tab_after] at hstart ⊢
    have hroom := TabStop.length_le_maxBytes (hfits raw (getElem_lines_of_texts hget))
    simp only [maxBytes, UInt64.size] at hroom
    have hspan : (tab.span (Text.body raw)).toNat = (tab.expand (Text.body raw)).length :=
      tab.toNat_span (by rw [UInt64.size]; omega)
    rw [hstart, TabStop.toNat_succ (by rw [UInt64.size]; omega), hspan, String.length_ofList]
  | noLine hlt =>
    have hnone : ((ofSource (.ofText name text tab)).after n).lines[t.line - 1]? = none := by
      rw [Array.getElem?_eq_none_iff]
      omega
    simp [sourceLine?, hnone] at hline

/-- What an error of a script blames is blamed by the lexer at some time. -/
theorem Script.exists_blame {d : Diagnostic}
    (h : Script.ofSource (.ofText name text tab) = .error (.fatal (.located d))) :
    ∃ n cause t, d = ((Lexer.ofSource (.ofText name text tab)).after n).blame cause t := by
  rcases Script.ofSource_blames h with ⟨n, he⟩ | ⟨n, t, -, -, ⟨-, m, cause, -, rfl⟩ | ⟨hmem, rfl⟩⟩
  · obtain ⟨cause, t, hd, -⟩ := (Lexer.aligned_ofSource _).item_error
      (Lexer.regular_ofSource name text tab) he
    exact ⟨n + 1, cause, t, by simpa using hd⟩
  · exact ⟨m, cause, t, rfl⟩
  · obtain ⟨i, m, -, -, hfinal⟩ := Lexer.exists_item_of_mem_tokens hmem
    exact ⟨m, _, t, congrArg (Lexer.blame · _ t) hfinal⟩

/-- An error of a script on a line that can be shown does not panic. -/
theorem Script.run_error {d : Diagnostic}
    (h : Script.ofSource (.ofText name text tab) = .error (.fatal (.located d)))
    (hfits : tab.FitsLine text d.line) :
    Script.run (.ofText name text tab) = .returns (.error (.fatal (.located d))) := by
  obtain ⟨n, cause, t, rfl⟩ := Script.exists_blame h
  rw [Script.run, h]
  exact if_pos (Lexer.fits_sourceLine hfits name n)

/-- Nothing panics while a text is read whose lines can be shown. -/
theorem Script.run_eq (hfits : tab.FitsText text) (name : String) :
    Script.run (.ofText name text tab) = .returns (Script.ofSource (.ofText name text tab)) := by
  rcases hread : Script.ofSource (.ofText name text tab) with halt | script
  · obtain ⟨d, rfl, -⟩ := Script.ofSource_located hread
    exact Script.run_error hread (hfits.fitsLine d.line)
  · rw [Script.run, hread]
    rfl

end

/-- If the line of a token can be shown, the columns of the token are those at which its text is
shown, and a newline stands behind its line ; that is so whenever the line is asked for. Hence the
carets of an error are under the text at fault, unless a newline is blamed for a line that no rule
fits. Nothing panics but for an error that is too long to be rendered. -/
theorem Script.ofText_columns (name text : String) (tab : TabStop) :
    let source := Source.ofText name text tab
    let lexer := Lexer.ofSource source
    (∀ n t, lexer.item n = .ok (some t) → tab.FitsLine text t.line → ∀ m, n < m →
      (t.kind ≠ .newline → t.kind ≠ .endMarker → ∃ line,
        (lexer.after m).shownLine t.line = .returns (some line) ∧
          tab.Shows line t.startColumn.toNat t.stopColumn.toNat t.text) ∧
      (t.kind = .newline → ∃ shown, (lexer.after m).shownLine t.line = .returns shown ∧
        ∀ line, shown = some line → t.startColumn.toNat = line.length + 1)) ∧
    (∀ n e, lexer.item n = .error e → ∃ d, e = .located d ∧ (tab.FitsLine text d.line →
      (lexer.after n).answer = .returns (.error e) ∧
        ∃ before after, d.Underlines tab before after)) ∧
    ∀ d, Script.ofSource source = .error (.fatal (.located d)) → tab.FitsLine text d.line →
      Script.run source = .returns (.error (.fatal (.located d))) ∧
      ((∃ before after, d.Underlines tab before after) ∨
        ∃ t ∈ lexer.toEnd.tokens, t.kind = .newline ∧
          d = lexer.toEnd.final.blame .unrecognized t) := by
  intro source lexer
  have hregular : lexer.Regular := Lexer.regular_ofSource name text tab
  have haligned : lexer.Aligned := Lexer.aligned_ofSource _
  have hstands {n m : Nat} {t : Token} (ht : lexer.item n = .ok (some t)) (hlt : n < m)
      (hnewline : t.kind ≠ .newline) (hmark : t.kind ≠ .endMarker) : (lexer.after m).Stands t :=
    (haligned.item_stands hregular ht hnewline hmark).onward (hregular.onward hlt)
  have herror {n : Nat} {e : ScriptError} (he : lexer.item n = .error e) :
      ∃ d, e = .located d ∧ (tab.FitsLine text d.line →
        (lexer.after n).answer = .returns (.error e) ∧
          ∃ before after, d.Underlines tab before after) := by
    obtain ⟨cause, t, rfl, ht⟩ := haligned.item_error hregular he
    refine ⟨_, rfl, fun hfits => ⟨?_, ht.exists_underlines hfits cause⟩⟩
    rw [Lexer.answer, Lexer.item_eq_error_iff.1 he, Lexer.tab_after name text tab n]
    exact if_pos (Lexer.fits_sourceLine hfits name (n + 1))
  refine ⟨fun n t ht hfits m hlt => ⟨fun hnewline hmark => ?_, fun hnewline => ?_⟩,
    fun n e he => herror he, fun d hd hfits => ⟨Script.run_error hd hfits, ?_⟩⟩
  · obtain ⟨line, hline, hshows⟩ := (hstands ht hlt hnewline hmark).shows hfits
    exact ⟨line, (Lexer.shownLine_eq hfits name m).trans (congrArg Run.returns hline), hshows⟩
  · exact ⟨_, Lexer.shownLine_eq hfits name m, fun line hline =>
      ((haligned.item_trails hregular ht hnewline).onward
        (hregular.onward hlt)).startColumn_eq hfits hline⟩
  · rcases Script.ofSource_blames hd with ⟨n, he⟩ |
      ⟨n, t, ht, hmark, ⟨hnewline, m, cause, hlt, rfl⟩ | ⟨hmem, rfl⟩⟩
    · obtain ⟨d', hd', hunderlines⟩ := herror he
      obtain rfl : d = d' := by simpa using hd'
      exact .inl (hunderlines hfits).2
    · exact .inl ((hstands ht hlt hnewline hmark).exists_underlines hfits cause)
    · by_cases hnewline : t.kind = .newline
      · exact .inr ⟨t, hmem, hnewline, rfl⟩
      · obtain ⟨i, m, hlt, hi, hfinal⟩ := Lexer.exists_item_of_mem_tokens hmem
        rw [hfinal]
        exact .inl ((hstands hi hlt hnewline hmark).exists_underlines hfits _)

/-- A tab before and a tab inside of what no token begins with. -/
theorem Script.ofText_columns_tabs :
    let tab := TabStop.ofSize 2
    let lexer := Lexer.ofSource (.ofText "" "m\tx ?\ty\n" tab)
    let t : Token := .ofText .name "x" 1 4 5
    let d : Diagnostic := { cause := .illegalCharacter '?', source := "", line := 1,
                            startColumn := 6, endColumn := 10, text := "?\ty",
                            context := some "m  x ?  y" }
    tab.FitsLine "m\tx ?\ty\n" 1 ∧
      (lexer.item 1 = .ok (some t) ∧ (lexer.after 2).shownLine 1 = .returns (some "m  x ?  y") ∧
        tab.Shows "m  x ?  y" 4 5 "x") ∧
      lexer.item 2 = .error (.located d) ∧ ∃ before after, d.Underlines tab before after := by
  intro tab lexer t d
  have hall : (TabStop.ofSize 2).FitsText "m\tx ?\ty\n" := by
    unfold TabStop.FitsText
    decide +kernel
  have hfits : (TabStop.ofSize 2).FitsLine "m\tx ?\ty\n" 1 := hall.fitsLine 1
  have hitem : (Lexer.ofSource (.ofText "" "m\tx ?\ty\n" (.ofSize 2))).item 1 =
      .ok (some t) := by decide +kernel
  have herror : (Lexer.ofSource (.ofText "" "m\tx ?\ty\n" (.ofSize 2))).item 2 =
      .error (.located d) := by decide +kernel
  have hline : ((Lexer.ofSource (.ofText "" "m\tx ?\ty\n" (.ofSize 2))).after 2).shownLine 1 =
      .returns (some "m  x ?  y") := by decide +kernel
  obtain ⟨htokens, herrors, -⟩ := Script.ofText_columns "" "m\tx ?\ty\n" (.ofSize 2)
  obtain ⟨line, hshown, hshows⟩ :=
    (htokens 1 t hitem hfits 2 (by decide)).1 (by decide) (by decide)
  obtain rfl : "m  x ?  y" = line := by simpa using hline.symm.trans hshown
  obtain ⟨d', hd', hunderlines⟩ := herrors 2 _ herror
  obtain rfl : d = d' := by simpa using hd'
  exact ⟨hfits, ⟨hitem, hline, hshows⟩, herror, (hunderlines hfits).2⟩

/-- Four tabs that share out all columns of a word make a line that cannot be shown, and a space
comes third in it. -/
theorem Lexer.shownLine_of_wide {lexer : Lexer}
    (hwidth : lexer.tab.width.toNat = UInt64.size / 4)
    (hline : lexer.sourceLine? 1 =
      some (String.ofList (lexer.tab.expand "m1\t\t\t\ty".toList))) :
    lexer.shownLine 1 = .panics ∧
      ∀ line, lexer.sourceLine? 1 = some line → ¬lexer.tab.Shows line 3 4 "y" := by
  obtain ⟨gap, hgap⟩ : ∃ gap, List.replicate lexer.tab.width.toNat ' ' = gap := ⟨_, rfl⟩
  have hexpand : lexer.tab.expand "m1\t\t\t\ty".toList =
      'm' :: '1' :: (gap ++ (gap ++ (gap ++ (gap ++ ['y'])))) := by
    simp [TabStop.expand, hgap]
  have hlength : gap.length = UInt64.size / 4 := by rw [← hgap, List.length_replicate, hwidth]
  obtain ⟨more, rfl⟩ : ∃ more, gap = ' ' :: more :=
    ⟨_, hgap.symm.trans ((congrArg (List.replicate · ' ') hwidth).trans List.replicate_succ)⟩
  refine ⟨?_, fun line hsource hshows => ?_⟩
  · have hlong : ¬lexer.tab.fits (String.ofList (lexer.tab.expand "m1\t\t\t\ty".toList)) := by
      intro hfits
      have hle := TabStop.length_le_maxBytes hfits
      rw [hexpand] at hle
      simp only [maxBytes, UInt64.size, List.length_cons, List.length_append,
        List.length_nil] at hle hlength
      omega
    rw [Lexer.shownLine, hline, Option.all_some, Run.guarded, if_neg hlong]
  · rw [hexpand] at hline
    obtain rfl := Option.some.inj (hline.symm.trans hsource)
    obtain ⟨before, after, hsplit, hstart, -⟩ := hshows
    have hbefore : before.length = 2 := (Nat.succ.inj hstart).symm
    have hthird := congrArg (·[2]?) hsplit
    simp [hbefore, TabStop.expand] at hthird

/-- Behind tabs that are so wide, the columns begin at zero again : those of the name are not where
it stands in the line, which cannot be shown either. -/
theorem Script.ofText_columns_overflow :
    let tab := TabStop.ofSize 4611686018427387904
    let lexer := Lexer.ofSource (.ofText "" "m1\t\t\t\ty" tab)
    lexer.item 1 = .ok (some (.ofText .name "y" 1 3 4)) ∧
      (lexer.after 2).shownLine 1 = .panics ∧
      ∀ line, (lexer.after 2).sourceLine? 1 = some line → ¬tab.Shows line 3 4 "y" := by
  have hitem : (Lexer.ofSource (.ofText "" "m1\t\t\t\ty" (.ofSize 4611686018427387904))).item 1 =
      .ok (some (.ofText .name "y" 1 3 4)) := by decide +kernel
  have htexts : ((Lexer.ofSource (.ofText "" "m1\t\t\t\ty"
      (.ofSize 4611686018427387904))).after 2).texts[1 - 1]? = some "m1\t\t\t\ty".toList := by
        decide +kernel
  have hwidth : (TabStop.ofSize 4611686018427387904).width.toNat = UInt64.size / 4 := by
    decide
  have hline := Lexer.sourceLine_eq (Nat.le_refl 1) htexts
    (Lexer.isLine_texts (List.mem_of_getElem? htexts))
  have htab := Lexer.tab_after "" "m1\t\t\t\ty" (.ofSize 4611686018427387904) 2
  have hwide := Lexer.shownLine_of_wide (htab ▸ hwidth) hline
  exact ⟨hitem, hwide.1, fun line hsource => htab ▸ hwide.2 line hsource⟩

end OpticScript
