import OpticScript.Proofs.Script.Precedence

/-!
# A script after a script

Two texts of which the first one ends in a line feed. The tokens of the first one are the
same with or without the second one (`Lexer.Seam`), and if the first one is a script, it
ends with all its lines used up and no bracket open (`Followed.reads_of_ok`). Then the
lines of the second one come to what they come to alone, further down, and so the whole
is the one script and then the other (`Script.ofSource_append`).
-/

namespace OpticScript

open Packrat Packrat.Outcome

/-! ## The seam -/

/-- The first `n` tokens of two lexers are the same, and the lines that begin among them
look at no other. -/
structure Lexer.Seam (lexer whole : Lexer) (n : Nat) : Prop where
  item_eq : ∀ i < n, whole.item i = lexer.item i
  blame_eq : ∀ i ≤ n, (whole.after i).blame = (lexer.after i).blame
  reach_le : ∀ fuel, ∀ pos < n, (lexer.comesTo fuel .scriptLine pos).reach ≤ n

namespace Lexer.Seam

variable {lexer whole : Lexer} {n wall fuel : Nat}

theorem comesTo_eq (h : lexer.Seam whole n) (hends : lexer.EndsAt wall) (hn : n ≤ wall + 1)
    (hfuel : fuelFor wall 0 ≤ fuel) {pos : Nat} (hpos : pos < n) :
    whole.comesTo fuel .scriptLine pos = lexer.comesTo fuel .scriptLine pos := by
  have hfinishes : (lexer.comesTo fuel .scriptLine pos).Finishes :=
    Lexer.comesTo_finishes hends.wall (by omega) (by unfold fuelFor at *; omega)
  exact evaluate_congr hfinishes fun i hi =>
    h.item_eq i (Nat.lt_of_lt_of_le hi (h.reach_le fuel pos hpos))

/-- Either the lines are read up to the seam, or they come to the same beyond it. -/
theorem reads_or_eq (h : lexer.Seam whole n) (hends : lexer.EndsAt wall) (hn : n ≤ wall + 1)
    (hfuel : fuelFor wall 0 ≤ fuel) (rounds : Nat) :
    let o := linesOutcome (lexer.comesTo fuel .scriptLine) rounds .empty 0
    (∃ m script, Reads (lexer.comesTo fuel .scriptLine) .empty 0 m script n) ∨
      linesOutcome (whole.comesTo fuel .scriptLine) rounds .empty 0 = o ∧ o.reach ≤ n ∧
        o.Ensures fun _ stop => stop < n :=
  OpticScript.reads_or_eq (lexer.comesTo_advances fuel .scriptLine)
    (evaluate_returns (fun _ => rfl) fuel Rule.scriptLine) (h.reach_le fuel)
    (fun _ hp => h.comesTo_eq hends hn hfuel hp) rounds .empty 0 (Nat.zero_le n)

/-- The lines that are read up to the seam are read the same way beyond it. -/
theorem linesOutcome_eq (h : lexer.Seam whole n) (hends : lexer.EndsAt wall) (hn : n ≤ wall + 1)
    (hfuel : fuelFor wall 0 ≤ fuel) {m : Nat} {script : Script}
    (hreads : Reads (lexer.comesTo fuel .scriptLine) .empty 0 m script n) :
    m ≤ n ∧ ∀ rounds, linesOutcome (whole.comesTo fuel .scriptLine) (rounds + m) .empty 0 =
      linesOutcome (whole.comesTo fuel .scriptLine) rounds script n := by
  have hadvances := lexer.comesTo_advances fuel .scriptLine
  have hline : ∀ pos < n, whole.comesTo fuel .scriptLine pos = lexer.comesTo fuel .scriptLine pos :=
    fun pos hpos => h.comesTo_eq hends hn hfuel hpos
  have hreach : ∀ pos < n, (whole.comesTo fuel .scriptLine pos).reach ≤ n := fun pos hpos => by
    rw [hline pos hpos]
    exact h.reach_le fuel pos hpos
  refine ⟨?_, (hreads.congr hadvances hline).linesOutcome_eq
    (whole.comesTo_advances fuel .scriptLine) hreach⟩
  have hle := hreads.le hadvances
  omega

end Lexer.Seam

/-- A lexer whose lines are followed by more. -/
structure Lexer.Followed (lexer : Lexer) (more : List Piece) (wall : Nat) : Prop where
  regular : (lexer.within #[] more).Regular
  more_ne_nil : more ≠ []
  left : ¬lexer.Exhausted
  endsAt : lexer.EndsAt wall

namespace Lexer.Followed

variable {lexer : Lexer} {more : List Piece} {wall fuel : Nat}

theorem left_of_lt (h : lexer.Followed more wall) {i : Nat} (hi : i < wall) :
    ¬(lexer.after i).Exhausted :=
  h.endsAt.left h.regular h.more_ne_nil h.left i hi

theorem after_eq (h : lexer.Followed more wall) {n : Nat}
    (hleft : ∀ i < n, ¬(lexer.after i).Exhausted) :
    ((lexer.after n).within #[] more).Regular ∧
      (lexer.within #[] more).after n = (lexer.after n).within #[] more :=
  h.regular.after_within hleft

/-- A line that is used up ended in a newline, and no line looks past that, whatever comes
after the lines. -/
theorem seam_exhausted_before (h : lexer.Followed more wall) (hex : (lexer.after wall).Exhausted)
    (pieces : List Piece) : lexer.Seam (lexer.within #[] pieces) wall where
  item_eq i hi := h.regular.item_left h.more_ne_nil
    (fun j hj => h.left_of_lt (Nat.lt_of_le_of_lt hj hi)) pieces
  blame_eq i hi := by
    rw [h.regular.after_left h.more_ne_nil (fun j hj => h.left_of_lt (Nat.lt_of_lt_of_le hj hi)),
      within_blame]
  reach_le fuel pos hpos := by
    obtain ⟨n, t, rfl, ht, hkind⟩ := h.endsAt.newline h.regular h.more_ne_nil h.left hex
    have hwall : Wall lexer.item (fun t => t.kind = .newline ∨ t.kind = .endMarker) n := by
      intro t' ht'
      obtain rfl : t = t' := by simpa [ht] using ht'
      exact .inl hkind
    exact (Lexer.comesTo_scriptLine_before hwall (Nat.le_of_lt_succ hpos) fuel).reach_le

theorem seam_exhausted (h : lexer.Followed more wall) (hex : (lexer.after wall).Exhausted) :
    lexer.Seam (lexer.within #[] more) wall :=
  h.seam_exhausted_before hex more

/-- An error is the same whatever comes after it. -/
theorem seam_broken_before (h : lexer.Followed more wall) (hex : ¬(lexer.after wall).Exhausted)
    (pieces : List Piece) : lexer.Seam (lexer.within #[] pieces) (wall + 1) := by
  have hleft : ∀ i < wall + 1, ¬(lexer.after i).Exhausted := by
    intro i hi
    rcases Nat.lt_or_eq_of_le (Nat.le_of_lt_succ hi) with hlt | rfl
    · exact h.left_of_lt hlt
    · exact hex
  exact {
    item_eq := fun i hi => h.regular.item_left h.more_ne_nil
      (fun j hj => hleft j (Nat.lt_of_le_of_lt hj hi)) pieces
    blame_eq := fun i hi => by
      rw [h.regular.after_left h.more_ne_nil (fun j hj => hleft j (Nat.lt_of_lt_of_le hj hi)),
        within_blame]
    reach_le := fun fuel pos hpos =>
      (Lexer.comesTo_upTo h.endsAt.wall fuel (by simp) (Nat.le_of_lt_succ hpos)).reach_le }

theorem seam_broken (h : lexer.Followed more wall) (hex : ¬(lexer.after wall).Exhausted) :
    lexer.Seam (lexer.within #[] more) (wall + 1) :=
  h.seam_broken_before hex more

/-- What comes when all lines are used up. -/
theorem item_exhausted (h : lexer.Followed more wall) (hex : (lexer.after wall).Exhausted) :
    lexer.after (wall + 1) = lexer.after wall ∧
      ((lexer.after wall).openers = [] →
        ∃ mark, lexer.item wall = .ok (some mark) ∧ mark.kind = .endMarker) ∧
      ((lexer.after wall).openers ≠ [] → ∃ opener, lexer.item wall =
        .error (.located ((lexer.after wall).blame (.unclosed opener.text) opener))) := by
  have hregular := (h.after_eq fun i hi => h.left_of_lt hi).1
  obtain ⟨hafter, hclosed, hopen⟩ := hregular.nextToken_exhausted h.more_ne_nil hex
    (h.regular.of_within.lines_ne_nil h.left hex)
  refine ⟨hafter, fun hopeners => ?_, fun hopeners => ?_⟩
  · obtain ⟨mark, hkind, hanswer⟩ := hclosed hopeners
    exact ⟨mark, item_eq_ok_iff.2 (Prod.ext hanswer rfl), hkind⟩
  · obtain ⟨opener, hanswer⟩ := hopen hopeners
    exact ⟨opener, item_eq_error_iff.2 hanswer⟩

/-- The lines that are read up to an end marker are the script. -/
theorem linesOutcome_of_reads (h : lexer.Followed more wall) (hfuel : fuelFor wall 0 ≤ fuel)
    {mark : Token} (hmark : lexer.item wall = .ok (some mark)) (hkind : mark.kind = .endMarker)
    (hex : (lexer.after wall).Exhausted) {m : Nat} {script : Script}
    (hreads : Reads (lexer.comesTo fuel .scriptLine) .empty 0 m script wall) :
    let o := linesOutcome (lexer.comesTo fuel .scriptLine) fuel .empty 0
    o.answer = .ok script ∧ o.stop = wall := by
  intro o
  have hadvances := lexer.comesTo_advances fuel .scriptLine
  have hle := hreads.le hadvances
  obtain ⟨rounds, hrounds⟩ : ∃ rounds, fuel = rounds + 1 + m :=
    ⟨fuel - m - 1, by unfold fuelFor at hfuel; omega⟩
  have hrest := hreads.linesOutcome_eq hadvances ((h.seam_exhausted hex).reach_le fuel) (rounds + 1)
  have hthree : 3 ≤ fuel := by
    unfold fuelFor at hfuel
    omega
  have hnone := Lexer.comesTo_scriptLine_none hmark hkind hthree
  have ho : o = linesOutcome (lexer.comesTo fuel .scriptLine) (rounds + 1 + m) .empty 0 :=
    congrArg (linesOutcome (lexer.comesTo fuel .scriptLine) · .empty 0) hrounds
  rw [ho, hrest, linesOutcome_of_none (by rw [hnone]), hnone]
  exact ⟨rfl, rfl⟩

/-- Lines that are read up to the end are a script. -/
theorem conclusion_of_reads (h : lexer.Followed more wall) (hfuel : fuelFor wall 0 ≤ fuel)
    (hopeners : lexer.openers = []) (hex : (lexer.after wall).Exhausted) {m : Nat} {script : Script}
    (hreads : Reads (lexer.comesTo fuel .scriptLine) .empty 0 m script wall) :
    lexer.conclusion (linesOutcome (lexer.comesTo fuel .scriptLine) fuel .empty 0) =
      .ok script := by
  obtain ⟨-, hclosed, -⟩ := h.item_exhausted hex
  obtain ⟨mark, hmark, hkind⟩ := hclosed ((hreads.openers h.regular.of_within).trans hopeners)
  obtain ⟨hanswer, hstop⟩ := h.linesOutcome_of_reads hfuel hmark hkind hex hreads
  exact conclusion_eq_ok_iff.2 ⟨hanswer, mark, hstop.symm ▸ hmark, hkind⟩

/-- A script is read up to the end, all lines are used up and all brackets closed. -/
theorem reads_of_ok (h : lexer.Followed more wall) (hfuel : fuelFor wall 0 ≤ fuel) {script : Script}
    (hok : lexer.conclusion (linesOutcome (lexer.comesTo fuel .scriptLine) fuel .empty 0) =
      .ok script) :
    (lexer.after wall).Exhausted ∧ (lexer.after wall).openers = [] ∧
      ∃ m, Reads (lexer.comesTo fuel .scriptLine) .empty 0 m script wall := by
  obtain ⟨hanswer, mark, hmark, hkind⟩ := Lexer.conclusion_eq_ok_iff.1 hok
  have hle := (linesOutcome_upTo h.endsAt.wall fuel .empty 0 (Nat.zero_le wall)).stop_le _ hanswer
  have hstop := h.endsAt.eq_of_endMarker hle hmark hkind
  rw [hstop] at hmark
  have hex : (lexer.after wall).Exhausted := by
    by_contra hex
    obtain ⟨⟨e, he⟩, -⟩ := h.endsAt.broken h.regular h.more_ne_nil h.left hex
    simp [he] at hmark
  refine ⟨hex, ?_, ?_⟩
  · by_contra hopeners
    obtain ⟨opener, he⟩ := (h.item_exhausted hex).2.2 hopeners
    simp [he] at hmark
  · rcases (h.seam_exhausted hex).reads_or_eq h.endsAt (Nat.le_succ wall) hfuel fuel with
      ⟨m, script', hreads⟩ | ⟨-, -, hlt⟩
    · have hanswer' := (h.linesOutcome_of_reads hfuel hmark hkind hex hreads).1
      obtain rfl : script' = script := Except.ok.inj (hanswer'.symm.trans hanswer)
      exact ⟨m, hreads⟩
    · exact absurd (hlt _ hanswer) (by omega)

/-- The lines that are read up to the end are read the same way if more lines follow. -/
theorem linesOutcome_eq (h : lexer.Followed more wall) (hex : (lexer.after wall).Exhausted)
    (hfuel : fuelFor wall 0 ≤ fuel) {m : Nat} {script : Script}
    (hreads : Reads (lexer.comesTo fuel .scriptLine) .empty 0 m script wall) :
    m ≤ wall ∧ ∀ rounds,
      linesOutcome ((lexer.within #[] more).comesTo fuel .scriptLine) (rounds + m) .empty 0 =
        linesOutcome ((lexer.within #[] more).comesTo fuel .scriptLine) rounds script wall :=
  (h.seam_exhausted hex).linesOutcome_eq h.endsAt (Nat.le_succ wall) hfuel hreads

/-- After a script that is read comes what the lexer of the rest gives, further down. -/
theorem below (h : lexer.Followed more wall) (hex : (lexer.after wall).Exhausted)
    (hopeners : (lexer.after wall).openers = []) (source : Source)
    (hname : source.name = lexer.source) (htab : source.tab = lexer.tab)
    (hpieces : source.pieces = more) (hsource : (ofSource source).Regular) :
    Below (lexer.after wall).lines.size (ofSource source)
      ((lexer.within #[] more).after wall) := by
  obtain ⟨hregular, hafter⟩ := h.after_eq fun i hi => h.left_of_lt hi
  have honward := h.regular.of_within.onward (Nat.zero_le wall)
  rw [hafter]
  exact hregular.below_exhausted h.more_ne_nil hex hopeners
    (hname.trans honward.source_eq.symm) (htab.trans honward.tab_eq.symm) hpieces hsource

end Lexer.Followed

/-! ## Texts -/

section

variable (name : String) (tab : TabStop) {a b : String}

theorem Piece.ofText_ne_nil {text : String} (h : text ≠ "") : Piece.ofText text ≠ [] := by
  rintro hnil
  have hlines : Text.lines text.toList = [] := List.map_eq_nil_iff.1 hnil
  exact h (String.toList_eq_nil_iff.1 (Text.lines_eq_nil hlines))

/-- A text is lexed like its first lines with the others after them. -/
theorem Lexer.ofSource_within_of_lines
    (hlines : Text.lines (a ++ b).toList = Text.lines a.toList ++ Text.lines b.toList) :
    Lexer.ofSource (.ofText name (a ++ b) tab) =
      (Lexer.ofSource (.ofText name a tab)).within #[] (Piece.ofText b) := by
  simp only [Lexer.ofSource, Lexer.within, Source.ofText, Piece.ofText, hlines, List.map_append]
  rfl

theorem Lexer.followed_of_lines
    (hlines : Text.lines (a ++ b).toList = Text.lines a.toList ++ Text.lines b.toList)
    (ha : a ≠ "") (hb : b ≠ "") :
    ∃ wall, fuelFor wall 0 ≤ Parser.fuel (.ofLexer (.ofSource (.ofText name a tab))) ∧
      (Lexer.ofSource (.ofText name a tab)).Followed (Piece.ofText b) wall := by
  obtain ⟨wall, hwall, hends⟩ := (Lexer.ofSource (.ofText name a tab)).exists_endsAt
  refine ⟨wall, fuelFor_le_fuel_ofLexer hwall, ?_, Piece.ofText_ne_nil hb, ?_, hends⟩
  · rw [← Lexer.ofSource_within_of_lines name tab hlines]
    exact Lexer.regular_ofSource name (a ++ b) tab
  · rintro ⟨-, hunread⟩
    exact Piece.ofText_ne_nil ha hunread

theorem lines_append_of_getLast (ha : a.toList.getLast? = some '\n') :
    Text.lines (a ++ b).toList = Text.lines a.toList ++ Text.lines b.toList := by
  rw [String.toList_append]
  exact Text.lines_append (by simp [ha]) _

theorem Lexer.ofSource_within (ha : a.toList.getLast? = some '\n') :
    Lexer.ofSource (.ofText name (a ++ b) tab) =
      (Lexer.ofSource (.ofText name a tab)).within #[] (Piece.ofText b) :=
  Lexer.ofSource_within_of_lines name tab (lines_append_of_getLast ha)

theorem Lexer.followed_ofText (ha : a.toList.getLast? = some '\n') (hb : b ≠ "") :
    ∃ wall, fuelFor wall 0 ≤ Parser.fuel (.ofLexer (.ofSource (.ofText name a tab))) ∧
      (Lexer.ofSource (.ofText name a tab)).Followed (Piece.ofText b) wall := by
  refine Lexer.followed_of_lines name tab (lines_append_of_getLast ha) ?_ hb
  rintro rfl
  simp at ha

/-- All lines of a text are read when it is used up. -/
theorem Lexer.lines_size_eq {name : String} {tab : TabStop} {wall : Nat}
    (hex : ((Lexer.ofSource (.ofText name a tab)).after wall).Exhausted) :
    ((Lexer.ofSource (.ofText name a tab)).after wall).lines.size =
      (Text.lines a.toList).length := by
  have hcount := ((Lexer.regular_ofSource name a tab).onward (Nat.zero_le wall)).count
  rw [hex.2] at hcount
  simpa [Lexer.after, Lexer.ofSource, Source.ofText, Piece.ofText] using hcount

/-- There are two tokens for a text without a line : a newline and the end marker. -/
theorem Lexer.item_nil (name : String) (tab : TabStop) :
    (ofSource (.ofText name "" tab)).item 0 = .ok (some (.synthetic .newline 1 1)) ∧
      (ofSource (.ofText name "" tab)).item 1 = .ok (some (.synthetic .endMarker 2 1)) := by
  constructor <;>
    simp [item, after, nextToken, nextTokenFrom, ofSource, Source.ofText, Piece.ofText, Text.lines,
      skipBlanks, finish, Except.map]

/-- A text without a line is an empty script. -/
theorem Script.ofSource_nil : Script.ofSource (.ofText name "" tab) = .ok .empty := by
  obtain ⟨hnewline, hmark⟩ := Lexer.item_nil name tab
  have hfuel : Parser.fuel (.ofLexer (.ofSource (.ofText name "" tab))) ≤ 80 := by
    simp [Parser.fuel, Parser.ofLexer, Lexer.remaining, Lexer.ofSource, Source.ofText,
      Piece.ofText, Text.lines]
  have hcommand := Lexer.comesTo_command_none 77 hnewline (by decide) (by decide)
  have hcomment := Lexer.comesTo_token_none 78 hnewline
    (show TokenKind.newline ≠ .comment by decide)
  have hblank : (Lexer.ofSource (.ofText name "" tab)).comesTo 80 .scriptLine 0 =
      { answer := .ok (some .blank), stop := 1, reach := 1 } := by
    rw [Lexer.comesTo_succ _ 79 rfl]
    simp [Phrase.branches, Phrase.scriptLine, Phrase.token, Phrase.rule, Phrase.optionalToken,
      Bind.bind, Branch.bind, Pure.pure, firstOutcome, Branch.outcome, hcommand, hcomment,
      thenMatch, andThen, here, Lexer.comesTo_token, takeAt, lookAt, hnewline, Token.synthetic]
  have hnone := Lexer.comesTo_scriptLine_none hmark rfl (show 3 ≤ 80 by decide)
  rw [ofSource_eq_conclusion hfuel, Lexer.conclusion_eq_ok_iff,
    linesOutcome_of_next (congrArg Outcome.answer hblank) rfl, hblank,
    linesOutcome_of_none (congrArg Outcome.answer hnone), hnone]
  exact ⟨rfl, _, hmark, rfl⟩

end

/-! ## A script and then a text -/

section

variable {name a b : String} {tab : TabStop} {first : Script}

/-- A text after a script comes to what it comes to alone, further down. -/
theorem Script.results_append (ha : a.toList.getLast? = some '\n') (hb : b ≠ "")
    (hfirst : Script.ofSource (.ofText name a tab) = .ok first)
    (hcause : first.commands = #[] ∨ ∀ d,
      Script.ofSource (.ofText name b tab) = .error (.fatal (.located d)) →
        d.cause ≠ .surfaceWithoutCommand) :
    first.Results (fun e e' => e' = e.lower (Text.lines a.toList).length)
      (Script.ofSource (.ofText name b tab)) (Script.ofSource (.ofText name (a ++ b) tab)) := by
  obtain ⟨wall, hwall, h⟩ := Lexer.followed_ofText name tab ha hb
  obtain ⟨wall', hwall', hends'⟩ := (Lexer.ofSource (.ofText name b tab)).exists_endsAt
  have hfuel' := fuelFor_le_fuel_ofLexer hwall'
  set lexer := Lexer.ofSource (.ofText name a tab)
  set lexer' := Lexer.ofSource (.ofText name b tab)
  set fuel' := Parser.fuel (.ofLexer lexer')
  -- fuel that is enough for both texts and for the whole
  obtain ⟨fuel, hfuel, hsum⟩ : ∃ fuel,
      Parser.fuel (.ofLexer (.ofSource (.ofText name (a ++ b) tab))) ≤ fuel ∧
        Parser.fuel (.ofLexer lexer) + fuel' ≤ fuel :=
    ⟨_, Nat.le_add_right _ _, Nat.le_add_left _ _⟩
  have hfirst' := (ofSource_eq_conclusion (Nat.le_of_add_right_le hsum)).symm.trans hfirst
  have hsecond := ofSource_eq_conclusion (Nat.le_refl fuel')
  have hwhole := ofSource_eq_conclusion hfuel
  rw [Lexer.ofSource_within name tab ha] at hwhole
  have henough := hwall.trans (Nat.le_of_add_right_le hsum)
  obtain ⟨hex, hopeners, m, hreads⟩ := h.reads_of_ok henough hfirst'
  obtain ⟨hm, hlines⟩ := h.linesOutcome_eq hex henough hreads
  have hrounds : m + fuel' ≤ fuel := by
    unfold fuelFor at hwall
    omega
  have hbelow := h.below hex hopeners (.ofText name b tab) rfl rfl rfl
    (Lexer.regular_ofSource name b tab)
  rw [Lexer.lines_size_eq hex] at hbelow
  have hrelated := hbelow.related (Lexer.regular_ofSource name b tab)
  have hlines := hlines (fuel - m)
  rw [Nat.sub_add_cancel (Nat.le_of_add_right_le hrounds)] at hlines
  rw [hwhole, hsecond, hlines]
  have hafter : first.After .empty first := rfl
  obtain ⟨hanswer, hstop, hreach⟩ := hrelated.lines
    (Nat.le_of_add_left_le hsum) (Nat.le_sub_of_add_le' hrounds) hafter 0
    (Lexer.lines_finish hends'.wall (Nat.zero_le wall') hfuel')
    (hcause.imp_right fun hcause blame hblame =>
      hcause _ (by rw [hsecond, Lexer.conclusion, hblame]))
  rw [Nat.zero_add] at hanswer hstop hreach
  exact hrelated.conclusion hanswer hstop hreach

/-- Scripts are put together line by line : after a script that is empty or ends in a line
feed, a script adds its commands, and an error is the same but for the lines before it,
unless it is a surface for which there is a command now. -/
theorem Script.ofSource_append (ha : a = "" ∨ a.toList.getLast? = some '\n')
    (hfirst : Script.ofSource (.ofText name a tab) = .ok first) :
    (∀ second, Script.ofSource (.ofText name b tab) = .ok second →
      Script.ofSource (.ofText name (a ++ b) tab) =
        .ok { commands := first.commands ++ second.commands }) ∧
    ∀ halt, Script.ofSource (.ofText name b tab) = .error halt →
      ∃ d, halt = .fatal (.located d) ∧
        (d.cause ≠ .surfaceWithoutCommand ∨ first.commands = #[] →
          Script.ofSource (.ofText name (a ++ b) tab) = .error (.fatal (.located
            { d with line := d.line + (Text.lines a.toList).length }))) := by
  rcases ha with rfl | ha
  · obtain rfl : .empty = first := by simpa [Script.ofSource_nil] using hfirst
    refine ⟨fun second hsecond => ?_, fun halt hhalt => ?_⟩
    · simpa [Script.empty] using hsecond
    · obtain ⟨d, rfl, -⟩ := Script.ofSource_located hhalt
      exact ⟨d, rfl, fun _ => by rw [String.empty_append]; exact hhalt⟩
  · rcases eq_or_ne b "" with rfl | hb
    · rw [String.append_empty, Script.ofSource_nil, hfirst]
      refine ⟨fun second hsecond => ?_, fun halt hhalt => by simp at hhalt⟩
      obtain rfl := Except.ok.inj hsecond
      simp [Script.empty]
    · refine ⟨fun second hsecond => ?_, fun halt hhalt => ?_⟩
      · have hresults :=
          Script.results_append ha hb hfirst (.inr fun d hd => by simp [hsecond] at hd)
        rw [hsecond] at hresults
        exact hresults.of_ok
      · obtain ⟨d, rfl, -⟩ := Script.ofSource_located hhalt
        refine ⟨d, rfl, fun hd => ?_⟩
        have hresults := Script.results_append ha hb hfirst <| hd.symm.imp_right
          fun hcause d' hd' => by
            obtain rfl : d = d' := by simpa [hhalt] using hd'
            exact hcause
        rw [hhalt] at hresults
        obtain ⟨e', heq, rfl⟩ := hresults.of_fatal
        exact heq

end

/-- A command after a command, and a key without a value after it. -/
theorem Script.ofSource_append_two_lines :
    let command (x : String) : Command :=
      { directive := "m", parameters := { args := [.expr (.name x)], keywords := .ofList [] } }
    let d : Diagnostic := { cause := .missingValue, source := "", line := 1, startColumn := 4,
                            endColumn := 5, text := "=", context := some "m k=" }
    Script.ofSource (.ofText "" "m x\n") = .ok { commands := #[command "x"] } ∧
      Script.ofSource (.ofText "" ("m x\n" ++ "m y")) =
        .ok { commands := #[command "x"] ++ #[command "y"] } ∧
      Script.ofSource (.ofText "" "m k=") = .error (.fatal (.located d)) ∧
      Script.ofSource (.ofText "" ("m x\n" ++ "m k=")) =
        .error (.fatal (.located { d with line := 2 })) := by
  intro command d
  have hfirst : Script.ofSource (.ofText "" "m x\n") = .ok { commands := #[command "x"] } := by
    rw [Script.ofSource_eq_verdict]
    decide +kernel
  have hsecond : Script.ofSource (.ofText "" "m y") = .ok { commands := #[command "y"] } := by
    rw [Script.ofSource_eq_verdict]
    decide +kernel
  have herror : Script.ofSource (.ofText "" "m k=") = .error (.fatal (.located d)) := by
    rw [Script.ofSource_eq_verdict]
    decide +kernel
  have hended : "m x\n".toList.getLast? = some '\n' := by decide
  obtain ⟨d', hd', hbelow⟩ := (Script.ofSource_append (.inr hended) hfirst).2 _ herror
  obtain rfl : d = d' := by simpa using hd'
  refine ⟨hfirst, (Script.ofSource_append (.inr hended) hfirst).1 _ hsecond, herror, ?_⟩
  exact hbelow (.inl (by simp [d]))

end OpticScript
