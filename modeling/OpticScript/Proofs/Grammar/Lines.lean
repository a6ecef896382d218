import OpticScript.Proofs.Grammar.Parts

/-!
# Lines that are spelled are matched

What a value is spelled with is read as that value, so the symbols of parameters are read as those
parameters (`Parameters.SpelledBy.readsParams`), a single comma between any two of their parts. The
rule of lines matches a directive line and a surface line.
-/

namespace OpticScript

open Packrat Packrat.Branch

/-! ## Parts of parameters -/

theorem Value.SpelledBy.readsFrom {v : Value} {symbols : List Symbol} (h : v.SpelledBy symbols) :
    v.ReadsFrom symbols :=
  fun hshows hends => h.matches_value hshows hends.valueEnds

theorem readsValues_commaSeparated {values : List Value} {spellings : List (List Symbol)}
    (h : List.Forall₂ Value.SpelledBy values spellings) (hne : spellings ≠ []) :
    ReadsValues values (commaSeparated spellings) := by
  induction h with
  | nil => exact absurd rfl hne
  | @cons v symbols values spellings hv hvalues ih =>
    rcases spellings with _ | ⟨next, spellings⟩
    · obtain rfl := List.forall₂_nil_right_iff.1 hvalues
      simpa [commaSeparated_cons] using ReadsValues.one hv.readsFrom
    · rw [commaSeparated_cons_cons]
      exact .more hv.readsFrom rfl (ih (List.cons_ne_nil _ _))

theorem readsPairs_commaSeparated {pairs : List (String × Value)} {spellings : List (List Symbol)}
    (h : List.Forall₂ SpellsPair pairs spellings) (hne : spellings ≠ []) :
    ReadsPairs pairs (commaSeparated spellings) := by
  have hone : ∀ {pair : String × Value} {symbols : List Symbol}, SpellsPair pair symbols →
      ReadsPairs [pair] symbols := by
    rintro ⟨key, v⟩ _ ⟨symbols, hv, rfl⟩
    have hname : (Symbol.name key).kind = .name := rfl
    exact .one hname rfl hv.readsFrom
  induction h with
  | nil => exact absurd rfl hne
  | @cons pair symbols pairs spellings hpair hpairs ih =>
    rcases spellings with _ | ⟨next, spellings⟩
    · obtain rfl := List.forall₂_nil_right_iff.1 hpairs
      simpa [commaSeparated_cons] using hone hpair
    · rw [commaSeparated_cons_cons]
      have hcomma : ∀ comma ∈ [Symbol.comma], comma.kind = .comma := by
        simp [Symbol.comma, Symbol.mark]
      exact .more (hone hpair) (List.cons_ne_nil _ _) hcomma (ih (List.cons_ne_nil _ _))

theorem commaSeparated_append {args pairs : List (List Symbol)} (hargs : args ≠ [])
    (hpairs : pairs ≠ []) :
    commaSeparated (args ++ pairs) = commaSeparated args ++ .comma :: commaSeparated pairs := by
  obtain ⟨arg, args, rfl⟩ := List.exists_cons_of_ne_nil hargs
  obtain ⟨pair, pairs, rfl⟩ := List.exists_cons_of_ne_nil hpairs
  simp [commaSeparated_cons]

theorem Parameters.SpelledBy.readsParams {p : Parameters} {symbols : List Symbol}
    (h : p.SpelledBy symbols) : ReadsParams p.args p.keywords.entries symbols := by
  cases h with
  | @mk args pairs hargs hpairs hne =>
    rcases eq_or_ne pairs [] with rfl | hpairs_ne
    · rw [List.append_nil] at hne ⊢
      rw [List.forall₂_nil_right_iff.1 hpairs]
      exact .values (readsValues_commaSeparated hargs hne)
    · have hkeywords := readsPairs_commaSeparated hpairs hpairs_ne
      rcases eq_or_ne args [] with rfl | hargs_ne
      · rw [List.forall₂_nil_right_iff.1 hargs]
        exact .pairs hkeywords
      · rw [commaSeparated_append hargs_ne hpairs_ne]
        exact .both (readsValues_commaSeparated hargs hargs_ne) rfl hkeywords

section

variable {items : Nat → Except ScriptError (Option Token)} {pos : Nat}

/-- Parameters that are spelled are matched, up to the end of the line. -/
theorem Parameters.SpelledBy.matches_params {p : Parameters} {symbols : List Symbol}
    (h : p.SpelledBy symbols) (hshows : Shows items pos symbols)
    (hstop : Sees items (pos + symbols.length) (· = .newline)) :
    Rule.commandParams.Matches items pos (some p) (pos + symbols.length) := by
  have hmatches := h.readsParams.matches_params hshows (hstop.imp fun _ heq => by simp [heq])
    (.nothing (hstop.imp fun _ heq => by simp [heq]))
  rwa [p.keywords.ofList_entries] at hmatches

/-! ## Lines -/

/-- The newline behind symbols. -/
theorem Shows.endReads {symbols : List Symbol} (h : Shows items pos (symbols ++ [.newline])) :
    Sees items (pos + symbols.length) (· = .newline) ∧
      EndReads items (pos + symbols.length) (pos + symbols.length + 1) := by
  obtain ⟨-, ⟨newline, hitem, hnewline⟩, -⟩ := shows_append.1 h
  have hkind : newline.kind = .newline := congrArg Symbol.kind hnewline
  exact ⟨⟨newline, hitem, hkind⟩, .newline hitem hkind⟩

/-- A directive line that is spelled is matched. -/
theorem Parameters.SpelledBy.matches_directive {p : Parameters} {directive : String}
    {symbols : List Symbol} (h : p.SpelledBy symbols)
    (hshows : Shows items pos (.name directive :: symbols ++ [.newline])) :
    Rule.scriptLine.Matches items pos (some (.statement (.primary { directive, parameters := p })))
      (pos + (symbols.length + 1) + 1) := by
  obtain ⟨hnewline, hend⟩ := hshows.endReads
  obtain ⟨⟨⟨t, ht, hname⟩, hparams⟩, -⟩ := shows_append.1 hshows
  obtain rfl : t.text = directive := congrArg Symbol.text hname
  rw [add_length_cons] at hnewline hend
  rw [show pos + (symbols.length + 1) + 1 = pos + 1 + symbols.length + 1 by omega]
  exact matches_statement (matches_primary ht (congrArg Symbol.kind hname)
    (h.matches_params hparams hnewline)) hend

/-- A surface line that is spelled is matched. -/
theorem Parameters.SpelledBy.matches_surface {p : Parameters} {symbols : List Symbol}
    (h : p.SpelledBy symbols) (hshows : Shows items pos (.surface :: symbols ++ [.newline])) :
    ∃ marker, Rule.scriptLine.Matches items pos (some (.statement (.secondary p marker)))
      (pos + (symbols.length + 1) + 1) := by
  obtain ⟨hnewline, hend⟩ := hshows.endReads
  obtain ⟨⟨⟨t, ht, hplus⟩, hparams⟩, -⟩ := shows_append.1 hshows
  rw [add_length_cons] at hnewline hend
  rw [show pos + (symbols.length + 1) + 1 = pos + 1 + symbols.length + 1 by omega]
  exact ⟨t, matches_statement (matches_secondary ht (congrArg Symbol.kind hplus)
    (h.matches_params hparams hnewline)) hend⟩

end

end OpticScript
