import OpticScript.Proofs.Grammar.Settled

/-!
# Lines that are settled

If no value is cut short in a line that is derived, each of its values is settled by its tokens
(`DerivesValue.exists_readsFrom`). So the tokens up to the comment or to the end of the line say
what is read of it : they are read as the same form wherever the line stands and however it ends
(`LineForm.ReadsLine`, `DerivesLine.exists_readsLine`). The form is of the same sort as the one
that is derived (`LineForm.SameSort`), but its values need not be the same.
-/

namespace OpticScript

open Packrat

/-! ## Tokens in a line -/

/-- None of the tokens is a comment or ends the line. -/
def InLine (tokens : List Token) : Prop := ∀ t ∈ tokens, t.kind ∉ [.newline, .comment]

/-- The tokens up to the rest end no parameter. -/
def Spans (tokens rest : List Token) : Prop :=
  ∃ before, tokens = before ++ rest ∧ ∀ t ∈ before, ¬t.kind.EndsParameter

section

variable {t : Token} {tokens mid rest before more : List Token}

theorem inLine_nil : InLine [] := by simp [InLine]

theorem InLine.cons (hkind : t.kind ∉ [.newline, .comment]) (h : InLine tokens) :
    InLine (t :: tokens) :=
  List.forall_mem_cons.2 ⟨hkind, h⟩

theorem InLine.append (h : InLine tokens) (h' : InLine more) : InLine (tokens ++ more) :=
  List.forall_mem_append.2 ⟨h, h'⟩

theorem DerivesComment.exists_note (h : DerivesComment tokens rest) :
    ∃ note, tokens = note ++ rest ∧ IsOptional .comment (note.map Token.symbol) := by
  cases h with
  | nothing => exact ⟨[], rfl, .inl rfl⟩
  | @comment comment _ hkind => exact ⟨[comment], rfl, .inr ⟨comment.symbol, rfl, hkind⟩⟩

theorem DerivesComment.atEnd {newline : Token} (h : DerivesComment tokens (newline :: rest))
    (hnewline : newline.kind = .newline) : AtEnd tokens := by
  cases h with
  | nothing => exact ⟨by simp [hnewline]⟩
  | comment hcomment => exact ⟨by simp [hcomment]⟩

/-- If no value is cut short in the tokens of a line, none is in what is left of it. -/
theorem NoneCutShort.of_append (h : NoneCutShort false (before ++ rest)) (hbefore : InLine before) :
    NoneCutShort false rest := by
  induction before with
  | nil => exact h
  | cons t before ih =>
    obtain ⟨hkind, hbefore⟩ := List.forall_mem_cons.1 hbefore
    have hnewline : t.kind ≠ .newline := fun heq => hkind (by simp [heq])
    have hmore := h.2
    rw [decide_eq_false hnewline] at hmore
    exact ih hmore hbefore

/-- If no value is cut short in the tokens up to a newline and behind it, none is behind it. -/
theorem NoneCutShort.behind {newline : Token} {first : Bool}
    (h : NoneCutShort first (before ++ newline :: rest))
    (hnewline : newline.kind = .newline) : NoneCutShort true rest := by
  induction before generalizing first with
  | nil => exact (noneCutShort_newline hnewline).1 h
  | cons t before ih => exact ih h.2

namespace Spans

theorem refl (rest : List Token) : Spans rest rest := ⟨[], rfl, by simp⟩

theorem cons (h : Spans tokens rest) (hkind : ¬t.kind.EndsParameter) :
    Spans (t :: tokens) rest := by
  obtain ⟨before, rfl, hbefore⟩ := h
  exact ⟨t :: before, rfl, List.forall_mem_cons.2 ⟨hkind, hbefore⟩⟩

theorem trans (h : Spans tokens mid) (h' : Spans mid rest) : Spans tokens rest := by
  obtain ⟨before, rfl, hbefore⟩ := h
  obtain ⟨more, rfl, hmore⟩ := h'
  exact ⟨before ++ more, (List.append_assoc _ _ _).symm, List.forall_mem_append.2 ⟨hbefore, hmore⟩⟩

/-- Of what is in brackets and of the brackets. -/
theorem group {left right : Token} (hleft : ¬left.kind.EndsParameter)
    (h : Spans tokens (right :: rest))
    (hright : ¬right.kind.EndsParameter) : Spans (left :: tokens) rest :=
  (h.trans ((refl rest).cons hright)).cons hleft

end Spans

/-! ## Values -/

theorem DerivesAction.spans {codes : String} (h : DerivesAction tokens rest codes) :
    Spans tokens rest := by
  induction h with
  | join _ _ ihl ihr => exact ihl.trans ihr
  | braces hleft _ hright repeats ih =>
    refine (Spans.group (by simp [hleft]) ih (by simp [hright])).trans ?_
    cases repeats with
    | nothing => exact .refl _
    | count hkind => exact (Spans.refl _).cons (by simp [hkind])
  | brackets hleft _ hright ih | parens hleft _ hright ih =>
    exact .group (by simp [hleft]) ih (by simp [hright])
  | codes hkind => exact (Spans.refl _).cons (by simp [hkind])

theorem DerivesExpr.spans {tier : Tier} {e : Expr} (h : DerivesExpr tier tokens rest e) :
    Spans tokens rest := by
  induction h with
  | sum _ hop _ ihl ihr => exact ihl.trans (ihr.cons hop.isOperator.not_endsParameter)
  | product _ hop _ ihl ihr => exact ihl.trans (ihr.cons hop.isOperator.not_endsParameter)
  | power _ hop _ ihl ihr => exact ihl.trans (ihr.cons (by simp [hop]))
  | ofProduct _ ih | ofSigned _ ih | ofPower _ ih | ofOperand _ ih => exact ih
  | signed hsign _ ih => exact ih.cons hsign.isOperator.not_endsParameter
  | parens hleft _ hright ih => exact .group (by simp [hleft]) ih (by simp [hright])
  | number h | name h | string h => exact (Spans.refl _).cons (by simp [h])

theorem DerivesValue.spans {v : Value} (h : DerivesValue tokens rest v) : Spans tokens rest := by
  cases h with
  | action h => exact h.spans
  | expr h => exact h.spans

/-- Of the tokens of a value that is not cut short a value is read, wherever they stand. -/
theorem DerivesValue.exists_readsFrom {v : Value} (h : DerivesValue tokens rest v)
    (hrest : AtEnd rest) (hcut : ¬CutShort tokens) :
    ∃ before, ∃ v' : Value, tokens = before ++ rest ∧ InLine before ∧
      v'.ReadsFrom (before.map Token.symbol) := by
  obtain ⟨before, rfl, hbefore⟩ := h.spans
  obtain ⟨v', hsettled⟩ := h.exists_settled hrest hcut
  exact ⟨before, v', rfl, fun t ht hkind => hbefore t ht (List.mem_cons_of_mem _ hkind),
    hsettled.readsFrom hbefore hrest⟩

/-! ## Parameters -/

/-- Values behind a first one are read one by one. -/
theorem DerivesMoreValues.exists_reads {vs : List Value} (h : DerivesMoreValues tokens rest vs)
    (hrest : AtEnd rest)
    (hwhole : NoneCutShort false tokens) {first : List Token} (hfirst : InLine first) {v : Value}
    (hreads : v.ReadsFrom (first.map Token.symbol)) :
    ∃ before vs', first ++ tokens = before ++ rest ∧ InLine before ∧
      ReadsValues vs' (before.map Token.symbol) := by
  induction h generalizing first v with
  | nothing => exact ⟨first, [v], rfl, hfirst, .one hreads⟩
  | @more comma tokens mid rest _ vs hcomma head tail ih =>
    obtain ⟨hcut, hwhole⟩ := (noneCutShort_separator (by simp [hcomma])).1 hwhole
    cases head with
    | value h =>
      obtain ⟨next, v', rfl, hnext, hreads'⟩ := h.exists_readsFrom (tail.atEnd hrest) hcut
      obtain ⟨before, vs', heq, hbefore, hmore⟩ := ih hrest (hwhole.of_append hnext) hnext hreads'
      refine ⟨first ++ comma :: before, v :: vs', by rw [heq, List.append_assoc, List.cons_append],
        hfirst.append (hbefore.cons (by simp [hcomma])), ?_⟩
      rw [List.map_append, List.map_cons]
      exact .more hreads hcomma hmore

theorem DerivesValueList.exists_reads {vs : List Value} (h : DerivesValueList tokens rest vs)
    (hrest : AtEnd rest) (hwhole : Unabridged tokens) :
    ∃ before vs', tokens = before ++ rest ∧ InLine before ∧
      ReadsValues vs' (before.map Token.symbol) := by
  cases h with
  | values head tail =>
    cases head with
    | value h =>
      obtain ⟨first, v', rfl, hfirst, hreads⟩ := h.exists_readsFrom (tail.atEnd hrest) hwhole.1
      exact tail.exists_reads hrest (hwhole.2.of_append hfirst) hfirst hreads

theorem DerivesCommas.exists_commas (h : DerivesCommas tokens rest) :
    ∃ commas, tokens = commas ++ rest ∧ commas ≠ [] ∧ ∀ comma ∈ commas, comma.kind = .comma := by
  induction h with
  | @one comma rest hcomma => exact ⟨[comma], rfl, List.cons_ne_nil _ _, by simp [hcomma]⟩
  | @more comma _ _ hcomma _ ih =>
    obtain ⟨commas, rfl, -, hcommas⟩ := ih
    exact ⟨comma :: commas, rfl, List.cons_ne_nil _ _, List.forall_mem_cons.2 ⟨hcomma, hcommas⟩⟩

theorem ReadsPairs.append {pairs pairs' : List (String × Value)} {symbols commas more : List Symbol}
    (h : ReadsPairs pairs symbols) (hne : commas ≠ [])
    (hcommas : ∀ comma ∈ commas, comma.kind = .comma)
    (h' : ReadsPairs pairs' more) : ReadsPairs (pairs ++ pairs') (symbols ++ (commas ++ more)) := by
  induction h with
  | one hname hequals h => exact .more (.one hname hequals h) hne hcommas h'
  | @more pair pairs symbols commas' rest h hne' hcommas' _ _ ih =>
    have hmore := ReadsPairs.more h hne' hcommas' ih
    rwa [← List.append_assoc commas', ← List.append_assoc symbols] at hmore

theorem DerivesPairs.exists_reads {pairs : List (String × Value)}
    (h : DerivesPairs tokens rest pairs) (hrest : AtEnd rest) (hwhole : NoneCutShort false tokens) :
    ∃ before pairs', tokens = before ++ rest ∧ InLine before ∧
      ReadsPairs pairs' (before.map Token.symbol) := by
  induction h with
  | join left commas right ihl ihr =>
    obtain ⟨before, ps, rfl, hbefore, hleft⟩ := ihl commas.atEnd hwhole
    have hmid := (commas.noneCutShort_iff right.not_cutShort).1 (hwhole.of_append hbefore)
    obtain ⟨more, qs, rfl, hmore, hright⟩ := ihr hrest hmid
    obtain ⟨separators, rfl, hne, hkinds⟩ := commas.exists_commas
    have hline : InLine separators := fun comma hcomma => by simp [hkinds comma hcomma]
    refine ⟨before ++ (separators ++ more), ps ++ qs, by simp,
      hbefore.append (hline.append hmore), ?_⟩
    rw [List.map_append, List.map_append]
    exact hleft.append (by simpa using hne) (by simpa [Token.symbol] using hkinds) hright
  | @pair name equals _ _ _ hname hequals h =>
    rw [noneCutShort_skip (by simp [hname]), noneCutShort_separator (by simp [hequals])] at hwhole
    obtain ⟨before, v', rfl, hbefore, hreads⟩ := h.exists_readsFrom hrest hwhole.1
    have hpair :
        ReadsPairs [(name.symbol.text, v')] (name.symbol :: equals.symbol ::
          before.map Token.symbol) :=
      .one hname hequals hreads
    exact ⟨name :: equals :: before, _, rfl,
      (hbefore.cons (by simp [hequals])).cons (by simp [hname]), hpair⟩

theorem inLine_of_isOptional (h : IsOptional .comma (before.map Token.symbol)) :
    InLine before := fun t ht hline => by
  have hkind : t.kind = .comma := h.kind_eq _ (List.mem_map_of_mem ht)
  simp [hkind] at hline

theorem DerivesTrailing.exists_trailing (h : DerivesTrailing tokens rest) :
    ∃ trailing, tokens = trailing ++ rest ∧ IsOptional .comma (trailing.map Token.symbol) := by
  cases h with
  | nothing => exact ⟨[], rfl, .inl rfl⟩
  | @comma comma _ _ hcomma => exact ⟨[comma], rfl, .inr ⟨comma.symbol, rfl, hcomma⟩⟩

/-- Parameters are read of the tokens up to a comma at the end of the line. -/
theorem DerivesParams.exists_reads {args : List Value} {pairs : List (String × Value)}
    (h : DerivesParams tokens rest args pairs) (hrest : AtEnd rest) (hwhole : Unabridged tokens) :
    ∃ before trailing args' pairs', tokens = before ++ (trailing ++ rest) ∧ InLine before ∧
      IsOptional .comma (trailing.map Token.symbol) ∧
      ReadsParams args' pairs' (before.map Token.symbol) := by
  cases h with
  | @both comma _ _ _ _ _ _ values hcomma keywords trailing =>
    obtain ⟨before, args', rfl, hbefore, hargs⟩ := values.exists_reads ⟨by simp [hcomma]⟩ hwhole
    have hmid := ((noneCutShort_separator (by simp [hcomma])).1 (hwhole.2.of_append hbefore)).2
    obtain ⟨more, pairs', rfl, hmore, hpairs⟩ := keywords.exists_reads (trailing.atEnd hrest) hmid
    obtain ⟨last, rfl, hlast⟩ := trailing.exists_trailing
    refine ⟨before ++ comma :: more, last, args', pairs', by simp,
      hbefore.append (hmore.cons (by simp [hcomma])), hlast, ?_⟩
    rw [List.map_append, List.map_cons]
    exact .both hargs hcomma hpairs
  | values values trailing =>
    obtain ⟨before, args', rfl, hbefore, hargs⟩ := values.exists_reads (trailing.atEnd hrest) hwhole
    obtain ⟨last, rfl, hlast⟩ := trailing.exists_trailing
    exact ⟨before, last, args', [], rfl, hbefore, hlast, .values hargs⟩
  | keywords keywords trailing =>
    obtain ⟨before, pairs', rfl, hbefore, hpairs⟩ :=
      keywords.exists_reads (trailing.atEnd hrest) hwhole.2
    obtain ⟨last, rfl, hlast⟩ := trailing.exists_trailing
    exact ⟨before, last, [], pairs', rfl, hbefore, hlast, .pairs hpairs⟩

end

/-! ## Lines -/

/-- The symbols are read as a line of this form, wherever they stand, be there a comment behind them
or not. -/
def LineForm.ReadsFrom (form : LineForm) (symbols : List Symbol) : Prop :=
  ∀ {items : Nat → Except ScriptError (Option Token)} {pos stop : Nat}, Shows items pos symbols →
    EndReads items (pos + symbols.length) stop →
    ∃ line, form.Gives line ∧ Rule.scriptLine.Matches items pos (some line) stop

/-- Forms that differ in the directive and in the parameters at most. -/
inductive LineForm.SameSort : LineForm → LineForm → Prop
  | blank : SameSort .blank .blank
  | command (directive directive' : String) (args args' : List Value)
      (pairs pairs' : List (String × Value)) :
      SameSort (.command directive args pairs) (.command directive' args' pairs')
  | surface (args args' : List Value) (pairs pairs' : List (String × Value)) :
      SameSort (.surface args pairs) (.surface args' pairs')

/-- Whether surfaces come before the first command depends on the sorts of the lines. -/
theorem surfacesOf_eq_nil_of_sameSort {forms forms' : List LineForm}
    (h : List.Forall₂ LineForm.SameSort forms forms') (hforms : surfacesOf forms = []) :
    surfacesOf forms' = [] := by
  induction h with
  | nil => rfl
  | cons hsort _ ih =>
    cases hsort with
    | blank => exact ih hforms
    | command => rfl
    | surface => simp [surfacesOf] at hforms

section

variable {items : Nat → Except ScriptError (Option Token)} {pos stop : Nat}

theorem LineForm.readsFrom_nil : LineForm.blank.ReadsFrom [] :=
  fun _ hend => ⟨.blank, rfl, matches_blank hend⟩

/-- Nothing is read as a blank line only. -/
theorem LineForm.ReadsFrom.eq_blank {form : LineForm} (h : form.ReadsFrom []) : form = .blank := by
  let items : Nat → Except ScriptError (Option Token) :=
    fun _ => .ok (some (.synthetic .newline 1 1))
  have hend : EndReads items 0 1 := .newline (show items 0 = _ from rfl) rfl
  have hshows : Shows items 0 [] := trivial
  obtain ⟨line, hgives, hmatches⟩ := h hshows hend
  have hline : some line = some .blank := (hmatches.unique (matches_blank hend)).1
  obtain rfl := Option.some.inj hline
  cases form with
  | blank => rfl
  | command => simp [LineForm.Gives] at hgives
  | surface => simp [LineForm.Gives] at hgives

/-- What comes behind the first token of a command is read wherever it stands. -/
theorem ReadsParams.matches_line {args : List Value} {pairs : List (String × Value)}
    {symbols trailing : List Symbol}
    (h : ReadsParams args pairs symbols) (htrailing : IsOptional .comma trailing)
    (hshows : Shows items pos (symbols ++ trailing))
    (hends : LineEnds items (pos + (symbols ++ trailing).length)) :
    Rule.commandParams.Matches items pos (some (parametersOf args pairs))
      (pos + (symbols ++ trailing).length) := by
  rw [add_length_append] at hends ⊢
  obtain ⟨hfirst, hmore⟩ := shows_append.1 hshows
  obtain ⟨hreads, hparam⟩ := htrailing.trailingReads hmore hends
  exact h.matches_params hfirst hparam hreads

/-- A command line without its comment and its newline is read wherever it stands. -/
theorem DerivesCommand.exists_readsFrom {tokens rest : List Token} {form : LineForm}
    (h : DerivesCommand tokens rest form) (hrest : AtEnd rest) (hwhole : NoneCutShort true tokens) :
    ∃ before form', tokens = before ++ rest ∧ InLine before ∧ form.SameSort form' ∧
      form'.ReadsFrom (before.map Token.symbol) := by
  cases h with
  | @command name _ _ args pairs hname params =>
    obtain ⟨before, trailing, args', pairs', rfl, hbefore, htrailing, hreads⟩ :=
      params.exists_reads hrest ((noneCutShort_first (by simp [hname])).1 hwhole)
    refine ⟨name :: (before ++ trailing), .command name.text args' pairs', by simp,
      (hbefore.append (inLine_of_isOptional htrailing)).cons (by simp [hname]), .command .., ?_⟩
    intro items pos stop hshows hend
    rw [List.map_cons, List.map_append] at hshows hend
    rw [add_length_cons] at hend
    obtain ⟨⟨t, ht, hsymbol⟩, hshows⟩ := hshows
    have htext : t.text = name.text := congrArg Symbol.text hsymbol
    have hkind : t.kind = .name := (congrArg Symbol.kind hsymbol).trans hname
    have hparams := hreads.matches_line htrailing hshows hend.lineEnds
    exact ⟨_, by rw [← htext]; rfl, matches_statement (matches_primary ht hkind hparams) hend⟩
  | @surface plus _ _ args pairs hplus params =>
    obtain ⟨before, trailing, args', pairs', rfl, hbefore, htrailing, hreads⟩ :=
      params.exists_reads hrest ((noneCutShort_first (by simp [hplus])).1 hwhole)
    refine ⟨plus :: (before ++ trailing), .surface args' pairs', by simp,
      (hbefore.append (inLine_of_isOptional htrailing)).cons (by simp [hplus]), .surface .., ?_⟩
    intro items pos stop hshows hend
    rw [List.map_cons, List.map_append] at hshows hend
    rw [add_length_cons] at hend
    obtain ⟨⟨t, ht, hsymbol⟩, hshows⟩ := hshows
    have hkind : t.kind = .plus := (congrArg Symbol.kind hsymbol).trans hplus
    have hparams := hreads.matches_line htrailing hshows hend.lineEnds
    exact ⟨_, ⟨t, rfl⟩, matches_statement (matches_secondary ht hkind hparams) hend⟩

end

/-- The symbols of a line are read as this form, its comment left aside. -/
inductive LineForm.ReadsLine (form : LineForm) : List Symbol → Prop
  | mk {symbols note : List Symbol} (h : form.ReadsFrom symbols)
      (hsymbols : ∀ symbol ∈ symbols, symbol.kind ≠ .comment) (hnote : IsOptional .comment note) :
      ReadsLine form (symbols ++ note)

section

variable {symbols symbols' note note' : List Symbol} {form : LineForm}

/-- There is one way to tell the comment of a line from what comes before it. -/
theorem eq_of_note_eq (heq : symbols ++ note = symbols' ++ note')
    (hsymbols : ∀ symbol ∈ symbols, symbol.kind ≠ .comment) (hnote : IsOptional .comment note)
    (hsymbols' : ∀ symbol ∈ symbols', symbol.kind ≠ .comment) (hnote' : IsOptional .comment note') :
    symbols = symbols' := by
  have hfilter : ∀ {symbols note : List Symbol}, (∀ symbol ∈ symbols, symbol.kind ≠ .comment) →
      IsOptional .comment note →
      (symbols ++ note).filter (fun symbol => symbol.kind ≠ .comment) = symbols := by
    intro symbols note hsymbols hnote
    rw [List.filter_append, List.filter_eq_self.2 (by simpa using hsymbols),
      List.filter_eq_nil_iff.2 (by simpa using hnote.kind_eq), List.append_nil]
  rw [← hfilter hsymbols hnote, heq, hfilter hsymbols' hnote']

theorem LineForm.ReadsLine.readsFrom (h : form.ReadsLine (symbols ++ note))
    (hsymbols : ∀ symbol ∈ symbols, symbol.kind ≠ .comment) (hnote : IsOptional .comment note) :
    form.ReadsFrom symbols := by
  generalize hline : symbols ++ note = line at h
  cases h with
  | mk h hsymbols' hnote' => exact eq_of_note_eq hline hsymbols hnote hsymbols' hnote' ▸ h

theorem LineForm.ReadsLine.eq_blank (h : form.ReadsLine []) : form = .blank := by
  have hnil : form.ReadsLine ([] ++ []) := h
  exact LineForm.ReadsFrom.eq_blank (hnil.readsFrom (by simp) (.inl rfl))

end

section

variable {before note rest : List Token} {form : LineForm}

theorem LineForm.ReadsFrom.readsLine (h : form.ReadsFrom (before.map Token.symbol))
    (hbefore : InLine before) (hnote : IsOptional .comment (note.map Token.symbol)) :
    (∀ t ∈ before ++ note, t.kind ≠ .newline) ∧
      form.ReadsLine ((before ++ note).map Token.symbol) := by
  refine ⟨List.forall_mem_append.2 ⟨fun t ht heq => hbefore t ht (by simp [heq]),
    fun t ht heq => ?_⟩, ?_⟩
  · have hkind : t.kind = .comment := hnote.kind_eq _ (List.mem_map_of_mem ht)
    simp [hkind] at heq
  · rw [List.map_append]
    refine .mk h (fun symbol hsymbol heq => ?_) hnote
    obtain ⟨t, ht, rfl⟩ := List.mem_map.1 hsymbol
    exact hbefore t ht (by simp [show t.kind = .comment from heq])

/-- A line that is derived is read of its tokens, wherever they stand. -/
theorem DerivesLine.exists_readsLine {tokens : List Token} (h : DerivesLine tokens rest form)
    (hwhole : NoneCutShort true tokens) :
    ∃ line newline form', tokens = line ++ newline :: rest ∧ newline.kind = .newline ∧
      form.SameSort form' ∧
      (∀ t ∈ line, t.kind ≠ .newline) ∧ form'.ReadsLine (line.map Token.symbol) := by
  cases h with
  | @command _ _ newline _ h comment hnewline =>
    obtain ⟨before, form', rfl, hbefore, hsort, hreads⟩ :=
      h.exists_readsFrom (comment.atEnd hnewline) hwhole
    obtain ⟨note, rfl, hnote⟩ := comment.exists_note
    exact ⟨before ++ note, newline, form', (List.append_assoc _ _ _).symm, hnewline, hsort,
      hreads.readsLine hbefore hnote⟩
  | @blank _ newline comment hnewline =>
    obtain ⟨note, rfl, hnote⟩ := comment.exists_note
    have hreads : LineForm.blank.ReadsFrom ([].map Token.symbol) := LineForm.readsFrom_nil
    exact ⟨note, newline, .blank, rfl, hnewline, .blank, hreads.readsLine inLine_nil hnote⟩

end

/-! ## Lines one after the other -/

/-- The tokens are those of lines with these symbols, with a newline behind each, and the end
marker. -/
inductive Lined : List (List Symbol) → List Token → Prop
  | nil {mark : Token} (hmark : mark.kind = .endMarker) : Lined [] [mark]
  | cons {line rest : List Token} {newline : Token} {spellings : List (List Symbol)}
      (hline : ∀ t ∈ line, t.kind ≠ .newline) (hnewline : newline.kind = .newline)
        (h : Lined spellings rest) :
      Lined (line.map Token.symbol :: spellings) (line ++ newline :: rest)

/-- The symbols of the tokens decide. -/
theorem Lined.of_symbols {spellings : List (List Symbol)} {tokens tokens' : List Token}
    (h : Lined spellings tokens) (hsame : tokens'.map Token.symbol = tokens.map Token.symbol) :
    Lined spellings tokens' := by
  have hkind {t t' : Token} (hsymbol : t'.symbol = t.symbol) : t'.kind = t.kind :=
    congrArg Symbol.kind hsymbol
  induction h generalizing tokens' with
  | nil hmark =>
    obtain ⟨mark', rfl, hmark'⟩ := List.map_eq_singleton_iff.1 hsame
    exact .nil ((hkind hmark').trans hmark)
  | @cons line rest newline spellings hline hnewline _ ih =>
    rw [List.map_append, List.map_cons] at hsame
    obtain ⟨line', more, rfl, hsymbols, hmore⟩ := List.map_eq_append_iff.1 hsame
    obtain ⟨newline', rest', rfl, hnewline', hrest⟩ := List.map_eq_cons_iff.1 hmore
    rw [← hsymbols]
    refine .cons (fun t' ht' => ?_) ((hkind hnewline').trans hnewline) (ih hrest)
    obtain ⟨t, ht, hsymbol⟩ := List.mem_map.1 (hsymbols ▸ List.mem_map_of_mem ht')
    exact hkind hsymbol.symm ▸ hline t ht

/-- There is one way to tell a line from what comes after it. -/
theorem eq_of_line_eq {line line' rest rest' : List Token} {newline newline' : Token}
    (heq : line ++ newline :: rest = line' ++ newline' :: rest')
    (hline : ∀ t ∈ line, t.kind ≠ .newline)
    (hnewline : newline.kind = .newline) (hline' : ∀ t ∈ line', t.kind ≠ .newline)
    (hnewline' : newline'.kind = .newline) : line = line' ∧ rest = rest' := by
  have htake : ∀ {line rest : List Token} {newline : Token}, (∀ t ∈ line, t.kind ≠ .newline) →
      newline.kind = .newline →
      (line ++ newline :: rest).takeWhile (fun t => t.kind ≠ .newline) = line := by
    intro line rest newline hline hnewline
    rw [List.takeWhile_append_of_pos (by simpa using hline),
      List.takeWhile_cons_of_neg (by simp [hnewline]), List.append_nil]
  have hsame : line = line' := by rw [← htake hline hnewline, heq, htake hline' hnewline']
  obtain rfl := hsame
  exact ⟨rfl, (List.cons.inj (List.append_cancel_left heq)).2⟩

/-- There is no newline among the tokens that are nothing but an end marker. -/
theorem ne_of_endMarker {line rest : List Token} {mark newline : Token}
    (hmark : mark.kind = .endMarker)
    (hnewline : newline.kind = .newline) : [mark] ≠ line ++ newline :: rest := by
  intro heq
  have hmem : newline ∈ [mark] := heq ▸ by simp
  simp [List.mem_singleton.1 hmem, hmark] at hnewline

/-- Lines that are derived are read one by one, wherever each of them stands. -/
theorem DerivesLines.exists_readsLine {tokens rest : List Token} {forms : List LineForm}
    {mark : Token} (h : DerivesLines tokens rest forms) (hrest : rest = [mark])
    (hmark : mark.kind = .endMarker)
    (hwhole : NoneCutShort true tokens) {spellings : List (List Symbol)}
    (hlined : Lined spellings tokens) :
    ∃ forms', List.Forall₂ LineForm.SameSort forms forms' ∧
      List.Forall₂ LineForm.ReadsLine forms' spellings := by
  induction h generalizing spellings with
  | nil =>
    subst hrest
    generalize htokens : [mark] = tokens at hlined
    cases hlined with
    | nil => exact ⟨[], .nil, .nil⟩
    | cons _ hnewline => exact absurd htokens (ne_of_endMarker hmark hnewline)
  | @cons tokens mid _ form forms head tail ih =>
    obtain ⟨line, newline, form', rfl, hnewline, hsort, hline, hreads⟩ :=
      head.exists_readsLine hwhole
    generalize htokens : line ++ newline :: mid = tokens at hlined
    cases hlined with
    | nil hmark' => exact absurd htokens.symm (ne_of_endMarker hmark' hnewline)
    | cons hline' hnewline' hmore =>
      obtain ⟨rfl, rfl⟩ := eq_of_line_eq htokens hline hnewline hline' hnewline'
      obtain ⟨forms', hsorts, hforms⟩ := ih hrest (hwhole.behind hnewline) hmore
      exact ⟨form' :: forms', .cons hsort hsorts, .cons hreads hforms⟩

end OpticScript
