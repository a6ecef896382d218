import OpticScript.Proofs.Grammar.Completeness

/-!
# Parameters of a line and their parts

Symbols that are read as a value, whatever ends it, are a part of the parameters of a line
(`Value.ReadsFrom`). Parts with single commas between them are values (`ReadsValues`), parts behind
keys with commas between them are pairs (`ReadsPairs`), and values, pairs, or the one and then the
other are parameters (`ReadsParams`). They are read completely and in order, with a comma at the
end of the line or without one (`ReadsParams.matches_params`) : a key is not taken for one more
value, and pairs are joined whatever the number of commas between them.
-/

namespace OpticScript

open Packrat Packrat.Branch

/-! ## The symbols -/

/-- The symbols are read as this value, wherever they stand and whatever ends the parameter. -/
def Value.ReadsFrom (v : Value) (symbols : List Symbol) : Prop :=
  ∀ {items : Nat → Except ScriptError (Option Token)} {pos : Nat}, Shows items pos symbols →
    ParameterEnds items (pos + symbols.length) → Rule.value.Matches items pos (some v)
      (pos + symbols.length)

/-- Values with a comma between any two of them. -/
inductive ReadsValues : List Value → List Symbol → Prop
  | one {v : Value} {symbols : List Symbol} (h : v.ReadsFrom symbols) : ReadsValues [v] symbols
  | more {v : Value} {vs : List Value} {comma : Symbol} {symbols rest : List Symbol}
    (h : v.ReadsFrom symbols)
      (hcomma : comma.kind = .comma) (hmore : ReadsValues vs rest) :
      ReadsValues (v :: vs) (symbols ++ comma :: rest)

/-- Values under keys with at least one comma between any two of them. -/
inductive ReadsPairs : List (String × Value) → List Symbol → Prop
  | one {name equals : Symbol} {v : Value} {symbols : List Symbol} (hname : name.kind = .name)
      (hequals : equals.kind = .equals) (h : v.ReadsFrom symbols) :
      ReadsPairs [(name.text, v)] (name :: equals :: symbols)
  | more {pair : String × Value} {pairs : List (String × Value)} {symbols commas rest : List Symbol}
      (h : ReadsPairs [pair] symbols) (hne : commas ≠ [])
        (hcommas : ∀ comma ∈ commas, comma.kind = .comma)
      (hmore : ReadsPairs pairs rest) : ReadsPairs (pair :: pairs) (symbols ++ (commas ++ rest))

/-- Values, pairs, or values and then pairs with a comma between them. -/
inductive ReadsParams : List Value → List (String × Value) → List Symbol → Prop
  | values {args : List Value} {symbols : List Symbol} (h : ReadsValues args symbols) :
      ReadsParams args [] symbols
  | pairs {pairs : List (String × Value)} {symbols : List Symbol} (h : ReadsPairs pairs symbols) :
      ReadsParams [] pairs symbols
  | both {args : List Value} {pairs : List (String × Value)} {comma : Symbol}
    {symbols rest : List Symbol}
      (h : ReadsValues args symbols) (hcomma : comma.kind = .comma) (h' : ReadsPairs pairs rest) :
      ReadsParams args pairs (symbols ++ comma :: rest)

/-- A symbol of this kind, or none. -/
def IsOptional (kind : TokenKind) (symbols : List Symbol) : Prop :=
  symbols = [] ∨ ∃ symbol, symbols = [symbol] ∧ symbol.kind = kind

section

variable {items : Nat → Except ScriptError (Option Token)} {pos stop : Nat} {symbols : List Symbol}

theorem IsOptional.kind_eq {kind : TokenKind} (h : IsOptional kind symbols) :
    ∀ symbol ∈ symbols, symbol.kind = kind := by
  rcases h with rfl | ⟨symbol, rfl, hkind⟩
  · simp
  · simp [hkind]

/-- A comment or none, and then a newline. -/
theorem IsOptional.endReads (h : IsOptional .comment symbols) (hshows : Shows items pos symbols)
    (hnewline : Sees items (pos + symbols.length) (· = .newline)) :
    EndReads items pos (pos + symbols.length + 1) := by
  obtain ⟨newline, hitem, hkind⟩ := hnewline
  rcases h with rfl | ⟨comment, rfl, hcomment⟩
  · exact .newline hitem hkind
  · obtain ⟨⟨t, ht, rfl⟩, -⟩ := hshows
    exact .comment ht hcomment hitem hkind

/-- A comma or none, and then the end of the line. -/
theorem IsOptional.trailingReads (h : IsOptional .comma symbols) (hshows : Shows items pos symbols)
    (hends : LineEnds items (pos + symbols.length)) :
    TrailingReads items pos (pos + symbols.length) ∧ ParameterEnds items pos := by
  rcases h with rfl | ⟨comma, rfl, hcomma⟩
  · exact ⟨.nothing (Sees.imp hends fun kind hkind heq => by simp [heq] at hkind),
      hends.parameterEnds⟩
  · obtain ⟨⟨t, ht, rfl⟩, -⟩ := hshows
    have hkind : t.kind = .comma := hcomma
    exact ⟨.comma ht hkind hends, t, ht, by simp [hkind]⟩

/-! ## Values by position -/

theorem Value.ReadsFrom.matches_positional {v : Value} (h : v.ReadsFrom symbols)
    (hshows : Shows items pos symbols) (hends : ParameterEnds items (pos + symbols.length)) :
    Rule.positionalValue.Matches items pos (some v) (pos + symbols.length) :=
  OpticScript.matches_positional (h hshows hends)
    (Sees.imp hends fun kind hkind heq => by simp [heq] at hkind)

/-- The values are matched one by one, if no other one comes behind them. -/
theorem ReadsValues.repeats {values : List Value} (h : ReadsValues values symbols)
    (hshows : Shows items pos symbols) (hends : ParameterEnds items (pos + symbols.length))
    (hnone : Rule.nextValue.Matches items (pos + symbols.length) none (pos + symbols.length)) :
    ∃ v vs mid, values = v :: vs ∧ pos ≤ mid ∧ Rule.positionalValue.Matches items pos (some v) mid ∧
      Repeats (evaluate scriptGrammar items) .nextValue mid vs (pos + symbols.length) := by
  induction h generalizing pos with
  | one h =>
    exact ⟨_, [], _, rfl, Nat.le_add_right _ _, h.matches_positional hshows hends, .nil hnone⟩
  | @more v vs comma symbols rest h hcomma hmore ih =>
    rw [add_length_append, add_length_cons] at hends hnone ⊢
    obtain ⟨hfirst, ⟨t, hitem, ht⟩, hrest⟩ := shows_append.1 hshows
    have hkind : t.kind = .comma := (congrArg Symbol.kind ht).trans hcomma
    obtain ⟨v', vs', mid, rfl, hle, hsecond, hothers⟩ := ih hrest hends hnone
    exact ⟨v, v' :: vs', _, rfl, Nat.le_add_right _ _,
      h.matches_positional hfirst ⟨t, hitem, by simp [hkind]⟩,
      .cons (matches_nextValue hitem hkind hsecond) (by omega) hothers⟩

theorem ReadsValues.matches_valueList {values : List Value} (h : ReadsValues values symbols)
    (hshows : Shows items pos symbols) (hends : ParameterEnds items (pos + symbols.length))
    (hnone : Rule.nextValue.Matches items (pos + symbols.length) none (pos + symbols.length)) :
    Rule.valueList.Matches items pos (some values) (pos + symbols.length) := by
  obtain ⟨v, vs, mid, rfl, -, hfirst, hmore⟩ := h.repeats hshows hends hnone
  exact OpticScript.matches_valueList hfirst hmore

/-! ## Values under keys -/

/-- So many commas, and another token behind them. -/
theorem Shows.commas {commas : List Symbol} (h : Shows items pos commas)
    (hcommas : ∀ comma ∈ commas, comma.kind = .comma)
    (hnext : Sees items (pos + commas.length) (· ≠ .comma)) :
    ∃ tokens, tokens.map Token.symbol = commas ∧ Commas items pos tokens (pos + commas.length) := by
  induction commas generalizing pos with
  | nil => exact ⟨[], rfl, commas_none hnext⟩
  | cons comma commas ih =>
    obtain ⟨hkind, hkinds⟩ := List.forall_mem_cons.1 hcommas
    obtain ⟨⟨t, hitem, rfl⟩, hmore⟩ := h
    rw [add_length_cons] at hnext ⊢
    obtain ⟨tokens, rfl, hothers⟩ := ih hmore hkinds hnext
    exact ⟨t :: tokens, rfl, .cons hitem hkind hothers⟩

theorem ReadsPairs.begins {pairs : List (String × Value)} (h : ReadsPairs pairs symbols) :
    ∃ name equals more, symbols = name :: equals :: more ∧ name.kind = .name ∧
      equals.kind = .equals := by
  induction h with
  | one hname hequals => exact ⟨_, _, _, rfl, hname, hequals⟩
  | more _ _ _ _ ih =>
    obtain ⟨name, equals, more, rfl, hname, hequals⟩ := ih
    exact ⟨name, equals, _, rfl, hname, hequals⟩

/-- No value is given by its position where pairs begin. -/
theorem ReadsPairs.matches_positional_none {pairs : List (String × Value)}
    (h : ReadsPairs pairs symbols)
    (hshows : Shows items pos symbols) : Rule.positionalValue.Matches items pos none pos := by
  obtain ⟨name, equals, more, rfl, hname, hequals⟩ := h.begins
  obtain ⟨⟨t, ht, rfl⟩, ⟨t', ht', rfl⟩, -⟩ := hshows
  exact matches_positional_none_key ht hname ht' hequals

/-- The pairs are read up to the end of the last one. -/
theorem ReadsPairs.pairsRead {pairs : List (String × Value)} (h : ReadsPairs pairs symbols)
    (hshows : Shows items pos symbols) (hends : ParameterEnds items (pos + symbols.length)) :
    PairsRead items pos pairs (pos + symbols.length) := by
  induction h generalizing pos with
  | one hname hequals h =>
    rw [add_length_cons, add_length_cons] at hends ⊢
    obtain ⟨⟨t, ht, rfl⟩, ⟨t', ht', rfl⟩, hvalue⟩ := hshows
    exact pairsRead_keyValue (by omega) (matches_keyValue ht hname ht' hequals (h hvalue hends))
  | @more pair pairs symbols commas rest h hne hcommas hmore ih ih' =>
    rw [add_length_append, add_length_append] at hends ⊢
    obtain ⟨hfirst, hothers⟩ := shows_append.1 hshows
    obtain ⟨hshows', hrest⟩ := shows_append.1 hothers
    obtain ⟨name, equals, more, rfl, hname, -⟩ := hmore.begins
    have hend : ParameterEnds items (pos + symbols.length) := by
      obtain ⟨comma, commas, rfl⟩ := List.exists_cons_of_ne_nil hne
      exact hshows'.sees.imp fun kind heq => by simp [heq, hcommas]
    obtain ⟨tokens, htokens, hread⟩ :=
      hshows'.commas hcommas (hrest.sees.imp fun kind heq => by simp [heq, hname])
    refine (ih hfirst hend).append hread (fun hnil => hne ?_) (ih' hrest hends) (by simp)
    rw [← htokens, hnil, List.map_nil]

/-! ## Parameters -/

/-- Parameters are read completely and in order. -/
theorem ReadsParams.matches_params {args : List Value} {pairs : List (String × Value)}
    (h : ReadsParams args pairs symbols) (hshows : Shows items pos symbols)
    (hends : ParameterEnds items (pos + symbols.length))
    (htrailing : TrailingReads items (pos + symbols.length) stop) :
    Rule.commandParams.Matches items pos (some { args, keywords := .ofList pairs }) stop := by
  cases h with
  | values h =>
    exact matches_params_values
      (h.matches_valueList hshows hends htrailing.matches_nextValue_none) htrailing
  | pairs h =>
    exact matches_params_keywords (matches_valueList_none (h.matches_positional_none hshows))
      ((h.pairsRead hshows hends).ends htrailing.pairsEnd) htrailing
  | @both _ _ comma symbols rest h hcomma h' =>
    rw [add_length_append, add_length_cons] at hends htrailing
    obtain ⟨hfirst, ⟨t, hitem, rfl⟩, hrest⟩ := shows_append.1 hshows
    have hnone : Rule.nextValue.Matches items (pos + symbols.length) none (pos + symbols.length) :=
      matches_nextValue_none (.inr ⟨⟨t, hitem, hcomma⟩, h'.matches_positional_none hrest⟩)
    have hargs :=
      h.matches_valueList hfirst ⟨t, hitem, by simp [show t.kind = .comma from hcomma]⟩ hnone
    exact matches_params_both hargs hitem hcomma
      ((h'.pairsRead hrest hends).ends htrailing.pairsEnd) htrailing

end

end OpticScript
