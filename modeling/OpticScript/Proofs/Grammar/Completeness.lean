import OpticScript.Proofs.Grammar.Commitment

/-!
# What is derived is matched

From values by position up to lines, a rule matches what is derived from it as far as it is read
(`ReadsUpTo`) : up to its end, or up to an operator behind a value that is cut short. It ends where
a comma or the end of the line comes, and what begins there is not taken for more of it, since no
value by position begins at a key (`matches_positional_none_key`) nor at the end of a line. Behind
a value that is cut short neither a comma nor the end of the line comes, so the rules stop there,
and there is no line (`DerivesLine.matches_line`).

What is matched need not be what is derived : a word of motion codes is derived as an expression
as well, and is matched as an action. But a line that is matched is of the sort that is derived
(`LineForm.IsSortOf`).
-/

namespace OpticScript

open Packrat Packrat.Branch

section

variable {items : Nat → Except ScriptError (Option Token)} {pos stop : Nat}
  {tokens mid rest : List Token}

/-- A comma or the end of a line comes next. -/
def ParameterEnds (items : Nat → Except ScriptError (Option Token)) (pos : Nat) : Prop :=
  Sees items pos (· ∈ [.comma, .newline, .comment])

theorem ParameterEnds.valueEnds (h : ParameterEnds items pos) : ValueEnds items pos :=
  Sees.imp h fun kind hkind => by
    revert hkind
    cases kind <;> decide

theorem LineEnds.parameterEnds (h : LineEnds items pos) : ParameterEnds items pos :=
  Sees.imp h fun _ hkind => List.mem_cons_of_mem _ hkind

/-! ## Values by position -/

theorem DerivesPositional.matches_positional {v : Value} (h : DerivesPositional tokens rest v)
    (hlists : Lists items pos tokens)
    (hends : ∀ {stop}, Lists items stop rest → ParameterEnds items stop) :
    ∃ v' stop, pos < stop ∧ Rule.positionalValue.Matches items pos (some v') stop ∧
      ReadsUpTo items (Unabridged tokens) rest stop := by
  cases h with
  | value h hnext =>
    obtain ⟨v', stop, hlt, hmatches, hread⟩ :=
      h.matches_value hlists fun hrest => (hends hrest).valueEnds
    refine ⟨v', stop, hlt, OpticScript.matches_positional hmatches ?_, hread⟩
    cases hread with
    | rest hrest => exact ⟨_, hrest.1, hnext⟩
    | operator hsees => exact hsees.ne fun hop => hop.notMem (by decide)

/-- A key is no value by position. -/
theorem matches_positional_none_key {name equals : Token} (hname : items pos = .ok (some name))
    (hkind : name.kind = .name) (hequals : items (pos + 1) = .ok (some equals))
    (hkind' : equals.kind = .equals) : Rule.positionalValue.Matches items pos none pos := by
  have hvalue : DerivesValue [name, equals] [equals] (.expr (.name name.text)) :=
    .expr (.ofProduct (.ofSigned (.ofPower (.ofOperand (.name hkind)))))
  obtain ⟨v, stop, -, hmatches, hread⟩ := hvalue.matches_value ⟨hname, hequals, trivial⟩
    fun hrest => ⟨equals, hrest.1, by simp [hkind']⟩
  cases hread with
  | rest hrest => exact matches_positional_none hmatches ⟨equals, hrest.1, hkind'⟩
  | operator _ hnot =>
    refine absurd ⟨not_cutShort_key hkind hkind', ?_⟩ hnot
    rw [noneCutShort_skip (by simp [hkind]), noneCutShort_separator (by simp [hkind'])]
    exact ⟨not_cutShort_nil, trivial⟩

theorem DerivesMoreValues.parameterEnds {vs : List Value} (h : DerivesMoreValues tokens rest vs)
    (hlists : Lists items pos tokens)
    (hends : ∀ {stop}, Lists items stop rest → ParameterEnds items stop) :
    ParameterEnds items pos := by
  cases h with
  | nothing => exact hends hlists
  | more hcomma => exact ⟨_, hlists.1, by simp [hcomma]⟩

theorem DerivesMoreValues.repeats {vs : List Value} (h : DerivesMoreValues tokens rest vs)
    (hlists : Lists items pos tokens)
    (hends : ∀ {stop}, Lists items stop rest → ParameterEnds items stop)
    (hnone : ∀ {stop}, Lists items stop rest → Rule.nextValue.Matches items stop none stop) :
    ∃ vs' stop, Repeats (evaluate scriptGrammar items) .nextValue pos vs' stop ∧
      ReadsUpTo items (NoneCutShort false tokens) rest stop := by
  induction h generalizing pos with
  | nothing rest => exact ⟨[], pos, .nil (hnone hlists), .rest hlists Iff.rfl⟩
  | @more comma tokens mid rest v vs hcomma head tail ih =>
    obtain ⟨v', stop, hlt, hmatches, hread⟩ :=
      head.matches_positional hlists.2 fun hmid => tail.parameterEnds hmid hends
    have hfirst := matches_nextValue hlists.1 hcomma hmatches
    have hwhole : NoneCutShort false (comma :: tokens) ↔ Unabridged tokens :=
      noneCutShort_separator (by simp [hcomma])
    cases hread with
    | rest hmid hiff =>
      obtain ⟨vs', stop', hrepeats, hread⟩ := ih hmid hends hnone
      exact ⟨v' :: vs', stop', .cons hfirst (by omega) hrepeats, hread.of_iff (hwhole.trans hiff)⟩
    | operator hsees hnot =>
      have hlast := matches_nextValue_none (.inl (hsees.ne fun hop => hop.notMem (by decide)))
      exact ⟨[v'], stop, .cons hfirst (by omega) (.nil hlast),
        .operator hsees fun h => hnot (hwhole.1 h)⟩

theorem DerivesValueList.matches_valueList {vs : List Value} (h : DerivesValueList tokens rest vs)
    (hlists : Lists items pos tokens)
    (hends : ∀ {stop}, Lists items stop rest → ParameterEnds items stop)
    (hnone : ∀ {stop}, Lists items stop rest → Rule.nextValue.Matches items stop none stop) :
    ∃ vs' stop, Rule.valueList.Matches items pos (some vs') stop ∧
      ReadsUpTo items (Unabridged tokens) rest stop := by
  cases h with
  | values head tail =>
    obtain ⟨v', mid, -, hmatches, hread⟩ :=
      head.matches_positional hlists fun hmid => tail.parameterEnds hmid hends
    cases hread with
    | rest hmid hiff =>
      obtain ⟨vs', stop, hrepeats, hread⟩ := tail.repeats hmid hends hnone
      exact ⟨v' :: vs', stop, OpticScript.matches_valueList hmatches hrepeats, hread.of_iff hiff⟩
    | operator hsees hnot =>
      have hlast := matches_nextValue_none (.inl (hsees.ne fun hop => hop.notMem (by decide)))
      exact ⟨[v'], mid, OpticScript.matches_valueList hmatches (.nil hlast), .operator hsees hnot⟩

/-! ## Values under keys -/

theorem DerivesCommas.parameterEnds (h : DerivesCommas tokens rest)
    (hlists : Lists items pos tokens) : ParameterEnds items pos := by
  cases h with
  | one hcomma | more hcomma => exact ⟨_, hlists.1, by simp [hcomma]⟩

/-- So many commas come, and then a token that is none. -/
theorem DerivesCommas.commas {t : Token} (h : DerivesCommas tokens (t :: rest))
    (hlists : Lists items pos tokens) (ht : t.kind ≠ .comma) :
    ∃ commas stop, commas ≠ [] ∧ Commas items pos commas stop ∧ Lists items stop (t :: rest) := by
  generalize hrest : t :: rest = more at h
  induction h generalizing pos with
  | one hcomma =>
    obtain rfl := hrest
    exact ⟨_, _, List.cons_ne_nil _ _, .cons hlists.1 hcomma (commas_none ⟨t, hlists.2.1, ht⟩),
      hlists.2⟩
  | more hcomma _ ih =>
    obtain ⟨commas, stop, -, hcommas, hmore⟩ := ih hlists.2 hrest
    exact ⟨_, stop, List.cons_ne_nil _ _, .cons hlists.1 hcomma hcommas, hmore⟩

theorem DerivesCommas.not_cutShort (h : DerivesCommas tokens rest) : ¬CutShort tokens := by
  cases h with
  | one hcomma | more hcomma => exact not_cutShort_cons (by simp [hcomma])

theorem DerivesCommas.noneCutShort_iff (h : DerivesCommas tokens rest) (hrest : ¬CutShort rest) :
    NoneCutShort false tokens ↔ NoneCutShort false rest := by
  induction h with
  | one hcomma => rw [noneCutShort_separator (by simp [hcomma]), unabridged_iff hrest]
  | more hcomma others ih =>
    rw [noneCutShort_separator (by simp [hcomma]), unabridged_iff others.not_cutShort, ih hrest]

theorem DerivesPairs.begins {pairs : List (String × Value)} (h : DerivesPairs tokens rest pairs) :
    ∃ name equals more, tokens = name :: equals :: more ∧ name.kind = .name ∧
      equals.kind = .equals := by
  induction h with
  | join _ _ _ ih => exact ih
  | pair hname hequals => exact ⟨_, _, _, rfl, hname, hequals⟩

theorem DerivesPairs.not_cutShort {pairs : List (String × Value)}
    (h : DerivesPairs tokens rest pairs) : ¬CutShort tokens := by
  obtain ⟨name, equals, more, rfl, hname, hequals⟩ := h.begins
  exact not_cutShort_key hname hequals

theorem DerivesPairs.matches_positional_none {pairs : List (String × Value)}
    (h : DerivesPairs tokens rest pairs) (hlists : Lists items pos tokens) :
    Rule.positionalValue.Matches items pos none pos := by
  obtain ⟨name, equals, more, rfl, hname, hequals⟩ := h.begins
  exact matches_positional_none_key hlists.1 hname hlists.2.1 hequals

/-- Pairs that are derived are read. -/
theorem DerivesPairs.reads {pairs : List (String × Value)} (h : DerivesPairs tokens rest pairs)
    (hlists : Lists items pos tokens)
    (hends : ∀ {stop}, Lists items stop rest → ParameterEnds items stop) :
    ∃ pairs' stop, pos < stop ∧ PairsRead items pos pairs' stop ∧
      ReadsUpTo items (NoneCutShort false tokens) rest stop := by
  induction h generalizing pos with
  | @join tokens mid mid' rest ps qs left commas right ihl ihr =>
    obtain ⟨pairs', stop, hlt, hpairs, hread⟩ := ihl hlists fun hmid => commas.parameterEnds hmid
    cases hread with
    | rest hmid hiff =>
      have hiff' := commas.noneCutShort_iff right.not_cutShort
      obtain ⟨name, equals, more, rfl, hname, -⟩ := right.begins
      obtain ⟨cs, next, hne, hcommas, hnext⟩ := commas.commas hmid (by simp [hname])
      obtain ⟨more', stop', hlt', hmore, hread⟩ := ihr hnext hends
      have hle := Repeats.le hcommas
      exact ⟨pairs' ++ more', stop', by omega, hpairs.append hcommas hne hmore hlt',
        hread.of_iff (hiff.trans hiff')⟩
    | operator hsees hnot => exact ⟨pairs', stop, hlt, hpairs, .operator hsees hnot⟩
  | @pair name equals tokens rest v hname hequals h =>
    obtain ⟨v', stop, hlt, hmatches, hread⟩ :=
      h.matches_value hlists.2.2 fun hrest => (hends hrest).valueEnds
    refine ⟨[(name.text, v')], stop, by omega, pairsRead_keyValue (by omega)
      (matches_keyValue hlists.1 hname hlists.2.1 hequals hmatches), hread.of_iff ?_⟩
    rw [noneCutShort_skip (by simp [hname]), noneCutShort_separator (by simp [hequals])]

/-! ## Parameters -/

theorem DerivesTrailing.parameterEnds (h : DerivesTrailing tokens rest)
    (hlists : Lists items pos tokens)
    (hends : ∀ {stop}, Lists items stop rest → LineEnds items stop) : ParameterEnds items pos := by
  cases h with
  | nothing => exact (hends hlists).parameterEnds
  | comma hcomma => exact ⟨_, hlists.1, by simp [hcomma]⟩

theorem SeesOperator.trailingReads (h : SeesOperator items pos) : TrailingReads items pos pos :=
  .nothing (h.ne fun hop => hop.notMem (by decide))

theorem DerivesTrailing.trailingReads (h : DerivesTrailing tokens rest)
    (hlists : Lists items pos tokens)
    (hends : ∀ {stop}, Lists items stop rest → LineEnds items stop) :
    ∃ stop, TrailingReads items pos stop ∧ Lists items stop rest := by
  cases h with
  | nothing =>
    exact ⟨pos, .nothing ((hends hlists).imp fun kind hkind heq => by simp [heq] at hkind), hlists⟩
  | comma hcomma hnext =>
    exact ⟨pos + 1, .comma hlists.1 hcomma ⟨_, hlists.2.1, by simpa using hnext⟩, hlists.2⟩

theorem DerivesTrailing.noneCutShort_iff (h : DerivesTrailing tokens rest) :
    NoneCutShort false tokens ↔ NoneCutShort false rest := by
  cases h with
  | nothing => rfl
  | @comma comma next rest hcomma hnext =>
    have hnot : ¬CutShort (next :: rest) :=
      not_cutShort_cons (by rcases hnext with heq | heq <;> simp [heq])
    rw [noneCutShort_separator (by simp [hcomma]), unabridged_iff hnot]

/-- What comes after a list of entries is read. -/
theorem DerivesTrailing.reads {mid : List Token} {whole : Prop} (h : DerivesTrailing mid rest)
    (hread : ReadsUpTo items whole mid pos)
    (hends : ∀ {stop}, Lists items stop rest → LineEnds items stop) :
    ∃ stop, TrailingReads items pos stop ∧ ReadsUpTo items whole rest stop := by
  cases hread with
  | rest hmid hiff =>
    obtain ⟨stop, htrailing, hrest⟩ := h.trailingReads hmid hends
    exact ⟨stop, htrailing, .rest hrest (hiff.trans h.noneCutShort_iff)⟩
  | operator hsees hnot => exact ⟨pos, hsees.trailingReads, .operator hsees hnot⟩

theorem TrailingReads.matches_nextValue_none (h : TrailingReads items pos stop) :
    Rule.nextValue.Matches items pos none pos := by
  refine OpticScript.matches_nextValue_none ?_
  cases h with
  | nothing h => exact .inl h
  | comma hitem hcomma hends => exact .inr ⟨⟨_, hitem, hcomma⟩, hends.matches_positional_none⟩

theorem DerivesTrailing.matches_nextValue_none (h : DerivesTrailing tokens rest)
    (hlists : Lists items pos tokens)
    (hends : ∀ {stop}, Lists items stop rest → LineEnds items stop) :
    Rule.nextValue.Matches items pos none pos := by
  obtain ⟨stop, htrailing, -⟩ := h.trailingReads hlists hends
  exact htrailing.matches_nextValue_none

/-- Parameters that are derived are matched. -/
theorem DerivesParams.matches_params {args : List Value} {pairs : List (String × Value)}
    (h : DerivesParams tokens rest args pairs) (hlists : Lists items pos tokens)
    (hends : ∀ {stop}, Lists items stop rest → LineEnds items stop) :
    ∃ p stop, Rule.commandParams.Matches items pos (some p) stop ∧
      ReadsUpTo items (Unabridged tokens) rest stop := by
  cases h with
  | @both comma _ mid mid' _ _ _ values hcomma keywords trailing =>
    have hwhole : NoneCutShort false (comma :: mid) ↔ NoneCutShort false mid :=
      (noneCutShort_separator (by simp [hcomma])).trans (unabridged_iff keywords.not_cutShort)
    obtain ⟨args', stop, hargs, hread⟩ := values.matches_valueList hlists
      (fun hmid => ⟨comma, hmid.1, by simp [hcomma]⟩)
      (fun hmid => matches_nextValue_none
        (.inr ⟨⟨comma, hmid.1, hcomma⟩, keywords.matches_positional_none hmid.2⟩))
    cases hread with
    | rest hmid hiff =>
      obtain ⟨pairs', next, -, hpairs, hread⟩ :=
        keywords.reads hmid.2 fun hmid' => trailing.parameterEnds hmid' hends
      obtain ⟨stop', htrailing, hread⟩ := trailing.reads hread hends
      exact ⟨_, stop',
        matches_params_both hargs hmid.1 hcomma (hpairs.ends htrailing.pairsEnd) htrailing,
        hread.of_iff (hiff.trans hwhole)⟩
    | operator hsees hnot =>
      exact ⟨_, stop, matches_params_values hargs hsees.trailingReads, .operator hsees hnot⟩
  | values values trailing =>
    obtain ⟨args', next, hargs, hread⟩ := values.matches_valueList hlists
      (fun hmid => trailing.parameterEnds hmid hends)
      (fun hmid => trailing.matches_nextValue_none hmid hends)
    obtain ⟨stop, htrailing, hread⟩ := trailing.reads hread hends
    exact ⟨_, stop, matches_params_values hargs htrailing, hread⟩
  | keywords keywords trailing =>
    obtain ⟨pairs', next, -, hpairs, hread⟩ :=
      keywords.reads hlists fun hmid => trailing.parameterEnds hmid hends
    obtain ⟨stop, htrailing, hread⟩ := trailing.reads hread hends
    exact ⟨_, stop,
      matches_params_keywords (matches_valueList_none (keywords.matches_positional_none hlists))
      (hpairs.ends htrailing.pairsEnd) htrailing,
        hread.of_iff (unabridged_iff keywords.not_cutShort)⟩

/-! ## Lines -/

/-- A line that is read is of the same sort as a form. -/
inductive LineForm.IsSortOf : LineForm → Line → Prop
  | blank : IsSortOf .blank .blank
  | command {directive : String} {args : List Value} {pairs : List (String × Value)} {c : Command} :
      IsSortOf (.command directive args pairs) (.statement (.primary c))
  | surface {args : List Value} {pairs : List (String × Value)} {p : Parameters} {marker : Token} :
      IsSortOf (.surface args pairs) (.statement (.secondary p marker))

theorem DerivesCommand.begins {form : LineForm} (h : DerivesCommand tokens rest form)
    (hlists : Lists items pos tokens) : Sees items pos (· ∈ [.name, .plus]) := by
  cases h with
  | command hkind | surface hkind => exact ⟨_, hlists.1, by simp [hkind]⟩

theorem DerivesCommand.matches_command {form : LineForm} (h : DerivesCommand tokens rest form)
    (hlists : Lists items pos tokens)
    (hends : ∀ {stop}, Lists items stop rest → LineEnds items stop) :
    ∃ statement stop, form.IsSortOf (.statement statement) ∧
      Rule.command.Matches items pos (some statement) stop ∧
      ReadsUpTo items (NoneCutShort true tokens) rest stop := by
  cases h with
  | command hname params =>
    obtain ⟨p, stop, hparams, hread⟩ := params.matches_params hlists.2 hends
    exact ⟨_, stop, .command, matches_primary hlists.1 hname hparams,
      hread.of_iff (noneCutShort_first (by simp [hname]))⟩
  | surface hplus params =>
    obtain ⟨p, stop, hparams, hread⟩ := params.matches_params hlists.2 hends
    exact ⟨_, stop, .surface, matches_secondary hlists.1 hplus hparams,
      hread.of_iff (noneCutShort_first (by simp [hplus]))⟩

theorem DerivesComment.endReads {newline : Token} (h : DerivesComment tokens (newline :: rest))
    (hnewline : newline.kind = .newline) (hlists : Lists items pos tokens) :
    ∃ stop, EndReads items pos stop ∧ Lists items stop rest := by
  cases h with
  | nothing => exact ⟨pos + 1, .newline hlists.1 hnewline, hlists.2⟩
  | comment hcomment =>
    exact ⟨pos + 1 + 1, .comment hlists.1 hcomment hlists.2.1 hnewline, hlists.2.2⟩

theorem DerivesComment.lineEnds {newline : Token} (h : DerivesComment tokens (newline :: rest))
    (hnewline : newline.kind = .newline) (hlists : Lists items pos tokens) :
    LineEnds items pos := by
  obtain ⟨stop, hend, -⟩ := h.endReads hnewline hlists
  exact hend.lineEnds

theorem DerivesComment.noneCutShort_iff {newline : Token}
    (h : DerivesComment tokens (newline :: rest))
    (hnewline : newline.kind = .newline) (first : Bool) :
    NoneCutShort first tokens ↔ NoneCutShort true rest := by
  cases h with
  | nothing => exact noneCutShort_newline hnewline
  | comment hcomment => rw [noneCutShort_comment hcomment, noneCutShort_newline hnewline]

/-- A line that is derived is matched, or no line is if a value of it is cut short. -/
theorem DerivesLine.matches_line {form : LineForm} (h : DerivesLine tokens rest form)
    (hlists : Lists items pos tokens) :
    (∃ line stop, form.IsSortOf line ∧ Rule.scriptLine.Matches items pos (some line) stop ∧
        Lists items stop rest ∧ (NoneCutShort true tokens ↔ NoneCutShort true rest)) ∨
      Rule.scriptLine.Matches items pos none pos ∧ Sees items pos (· ≠ .endMarker) ∧
        ¬NoneCutShort true tokens := by
  cases h with
  | command h comment hnewline =>
    obtain ⟨statement, stop, hsort, hcommand, hread⟩ :=
      h.matches_command hlists fun hmid => comment.lineEnds hnewline hmid
    cases hread with
    | rest hmid hiff =>
      obtain ⟨stop', hend, hrest⟩ := comment.endReads hnewline hmid
      exact .inl ⟨_, stop', hsort, matches_statement hcommand hend, hrest,
        hiff.trans (comment.noneCutShort_iff hnewline false)⟩
    | operator hsees hnot =>
      have hbegins := h.begins hlists
      refine .inr ⟨matches_scriptLine_none (hbegins.imp fun kind hkind => ?_)
        (.inr ⟨statement, stop, hcommand, Sees.imp hsees fun _ hkind =>
          hkind.notMem_of_subset (by decide)⟩),
        hbegins.imp fun kind hkind heq => ?_, hnot⟩
      · revert hkind
        cases kind <;> decide
      · simp [heq] at hkind
  | blank comment hnewline =>
    obtain ⟨stop, hend, hrest⟩ := comment.endReads hnewline hlists
    exact .inl ⟨_, stop, .blank, matches_blank hend, hrest, comment.noneCutShort_iff hnewline true⟩

end

end OpticScript
