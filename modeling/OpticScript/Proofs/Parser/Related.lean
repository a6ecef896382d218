import OpticScript.Proofs.Parser.Lines

/-!
# Scripts of tokens that are related

If two lexers give tokens that are related by something the grammar does not see
(`Lexer.Related`), the lines of the one are those of the other (`linesOutcome_related`), and
so is the conclusion, errors being related too (`Lexer.Related.conclusion`,
`Script.results_related`). The second one may have read lines before : their commands stand in
front, and a surface that has no command of its own is the one thing that can tell.
-/

namespace OpticScript

open Packrat Packrat.Outcome

/-! ## Lines -/

/-- The second script has the commands of `earlier` before those of the first one. -/
def Script.After (earlier script script' : Script) : Prop :=
  script'.commands = earlier.commands ++ script.commands

section

variable {R : Token → Token → Prop} {E : ScriptError → ScriptError → Prop} {shift bound : Nat}
  {earlier script script' : Script} {next next' : Line}

theorem Script.After.addSurface_none (h : earlier.After script script') {surface : Parameters}
    (hnone : script.addSurface? surface = none) (hearlier : earlier.commands = #[]) :
    script'.addSurface? surface = none := by
  have hsame : script'.commands = script.commands := by
    have hcommands : script'.commands = earlier.commands ++ script.commands := h
    rw [hcommands, hearlier, Array.empty_append]
  rw [Script.addSurface?, hsame]
  exact hnone

theorem Script.After.addSurface (h : earlier.After script script') {surface : Parameters}
    {added : Script} (hsome : script.addSurface? surface = some added) :
    ∃ added', script'.addSurface? surface = some added' ∧ earlier.After added added' := by
  unfold Script.addSurface? at *
  split at hsome
  · simp at hsome
  · rename_i command hback
    obtain rfl := Option.some.inj hsome
    have hne : script.commands ≠ #[] := by
      rintro hnil
      simp [hnil] at hback
    have hback' : script'.commands.back? = some command := by
      rw [h, Array.back?_append, hback, Option.some_or]
    rw [hback']
    refine ⟨_, rfl, ?_⟩
    change script'.commands.pop.push _ = earlier.commands ++ script.commands.pop.push _
    rw [h, Array.pop_append_of_ne_empty hne, Array.push_append]

/-- A line is added to the commands that come last, and it is refused only if there is no
command at all. -/
theorem addLine_after (h : earlier.After script script') (hnext : next.Related R next') :
    (∃ added added', Parser.addLine script next = .ok added ∧
      Parser.addLine script' next' = .ok added' ∧ earlier.After added added') ∨
    ∃ blame, Parser.addLine script next = .error blame ∧ blame.cause = .surfaceWithoutCommand ∧
      (earlier.commands = #[] →
        ∃ blame', Parser.addLine script' next' = .error blame' ∧ blame.Related R blame') := by
  cases hnext with
  | blank => exact .inl ⟨script, script', rfl, rfl, h⟩
  | statement hs =>
    cases hs with
    | primary command =>
      refine .inl ⟨_, _, rfl, rfl, ?_⟩
      rw [Script.After, Script.push, Script.push, h, Array.push_append]
    | @secondary surface marker marker' hmarker hplus =>
      rcases hadd : script.addSurface? surface with _ | added
      · refine .inr ⟨{ cause := .surfaceWithoutCommand, token := marker }, ?_, rfl, fun hnil => ?_⟩
        · simp [Parser.addLine, hadd]
        · refine ⟨{ cause := .surfaceWithoutCommand, token := marker' }, ?_, rfl,
            .surfaceWithoutCommand, hmarker, by simp [hplus]⟩
          simp [Parser.addLine, h.addSurface_none hadd hnil]
      · obtain ⟨added', hadd', hafter⟩ := h.addSurface hadd
        exact .inl ⟨added, added', by simp [Parser.addLine, hadd],
          by simp [Parser.addLine, hadd'], hafter⟩

/-- The lines come to the same, unless the first of them is a surface that only the earlier
commands have a place for. -/
theorem linesOutcome_related {line line' : Nat → Outcome Blame ScriptError (Option Line)}
    (hline : ∀ pos, (relating R E).Outcomes shift bound (Option.Rel (Line.Related R)) (line pos)
      (line' (pos + shift))) :
    ∀ {rounds rounds' : Nat}, rounds ≤ rounds' → ∀ {script script' : Script} {pos : Nat},
      earlier.After script script' →
      (earlier.commands = #[] ∨ ∀ blame,
        (linesOutcome line rounds script pos).answer = .error (.complaint blame) →
          blame.cause ≠ .surfaceWithoutCommand) →
      (relating R E).Outcomes shift bound earlier.After (linesOutcome line rounds script pos)
        (linesOutcome line' rounds' script' (pos + shift))
  | 0, _, _, _, _, pos, _, _ => .inr (.inl (by simp [linesOutcome, Finishes, Outcome.fail]))
  | rounds + 1, 0, h, _, _, _, _, _ => absurd h (by omega)
  | rounds + 1, rounds' + 1, h, script, script', pos, hafter, hcause => by
    refine (hline pos).andThen_of_answer fun next next' hnext hrelated => ?_
    cases hrelated with
    | none => exact Likeness.outcomes_here hafter _
    | @some next next' hrelated =>
      dsimp only
      rcases addLine_after hafter hrelated with
        ⟨added, added', hadd, hadd', hafter'⟩ | ⟨blame, hadd, hrefusal, hrefused⟩
      · rw [hadd, hadd']
        refine linesOutcome_related hline (Nat.le_of_succ_le_succ h) hafter' ?_
        refine hcause.imp_right fun hcause blame hblame => hcause blame ?_
        rw [linesOutcome_of_next hnext hadd, hblame]
      · have hnil : earlier.commands = #[] := by
          refine hcause.resolve_right fun hcause => hcause blame ?_ hrefusal
          rw [linesOutcome_of_refused hnext hadd]
        obtain ⟨blame', hadd', hblame⟩ := hrefused hnil
        rw [hadd, hadd']
        exact .inr (.inr ⟨hblame, rfl, rfl⟩)

end

/-! ## Lexers -/

theorem Lexer.diagnosis_add {lexer : Lexer} (m n : Nat) (last : Token) :
    lexer.diagnosis (m + n) last = (lexer.after m).diagnosis n last := by
  simp only [Lexer.diagnosis, Lexer.after_add]

/-- The second lexer gives tokens and errors that are related to those of the first one, and the
tokens are of the same kinds. -/
structure Lexer.Matched (R : Token → Token → Prop) (E : ScriptError → ScriptError → Prop)
    (lexer lexer' : Lexer) : Prop where
  kind_eq : ∀ {t t' : Token}, R t t' → t'.kind = t.kind
  items : ∀ n, (relating R E).Items (lexer.item n) (lexer'.item n)

namespace Lexer.Matched

variable {R : Token → Token → Prop} {E : ScriptError → ScriptError → Prop} {lexer lexer' : Lexer}
  {n : Nat} {t : Token} {e : ScriptError}

theorem token (h : lexer.Matched R E lexer') (ht : lexer.item n = .ok (some t)) :
    ∃ t', lexer'.item n = .ok (some t') ∧ R t t' := by
  have hitems := h.items n
  rw [ht] at hitems
  rcases hitem : lexer'.item n with e | _ | t' <;> rw [hitem] at hitems
  · exact hitems.elim
  · cases hitems
  · cases hitems with
    | some hr => exact ⟨t', rfl, hr⟩

theorem fault (h : lexer.Matched R E lexer') (he : lexer.item n = .error e) :
    ∃ e', lexer'.item n = .error e' ∧ E e e' := by
  have hitems := h.items n
  rw [he] at hitems
  rcases hitem : lexer'.item n with e' | t' <;> rw [hitem] at hitems
  · exact ⟨e', rfl, hitems⟩
  · exact hitems.elim

theorem after (h : lexer.Matched R E lexer') (n : Nat) :
    (lexer.after n).Matched R E (lexer'.after n) where
  kind_eq := h.kind_eq
  items m := by
    rw [← item_add, ← item_add]
    exact h.items _

theorem endsAt (h : lexer.Matched R E lexer') (hends : lexer.EndsAt n) : lexer'.EndsAt n where
  wall t' ht' := by
    rcases hitem : lexer.item n with e | _ | t
    · obtain ⟨e', he', -⟩ := h.fault hitem
      simp [he'] at ht'
    · exact absurd hitem (item_ne_none n)
    · obtain ⟨t'', ht'', hr⟩ := h.token hitem
      obtain rfl : t'' = t' := by simpa [ht''] using ht'
      exact (h.kind_eq hr).trans (hends.wall t hitem)
  not_wall i hi := by
    obtain ⟨t, ht, hkind⟩ := hends.not_wall i hi
    obtain ⟨t', ht', hr⟩ := h.token ht
    exact ⟨t', ht', h.kind_eq hr ▸ hkind⟩

/-- Whole texts have related tokens up to the end, where there are related errors or none. -/
theorem toEnd (h : lexer.Matched R E lexer') :
    List.Forall₂ R lexer.toEnd.tokens lexer'.toEnd.tokens ∧
      Option.Rel E lexer.toEnd.failure lexer'.toEnd.failure := by
  obtain ⟨n, -, hends⟩ := lexer.exists_endsAt
  induction n generalizing lexer lexer' with
  | zero =>
    rcases hitem : lexer.item 0 with e | _ | t
    · obtain ⟨e', he', he⟩ := h.fault hitem
      rw [toEnd_of_error hitem, toEnd_of_error he']
      exact ⟨.nil, .some he⟩
    · exact absurd hitem (item_ne_none 0)
    · obtain ⟨t', ht', hr⟩ := h.token hitem
      have hkind := hends.wall t hitem
      rw [toEnd_of_endMarker hitem hkind, toEnd_of_endMarker ht' ((h.kind_eq hr).trans hkind)]
      exact ⟨.cons hr .nil, .none⟩
  | succ n ih =>
    obtain ⟨t, ht, hkind⟩ := hends.not_wall 0 (Nat.succ_pos n)
    obtain ⟨t', ht', hr⟩ := h.token ht
    rw [Nat.add_comm] at hends
    obtain ⟨htokens, hfailure⟩ := ih (h.after 1) hends.after
    rw [toEnd_of_token ht hkind, toEnd_of_token ht' (h.kind_eq hr ▸ hkind)]
    exact ⟨.cons hr htokens, hfailure⟩

end Lexer.Matched

/-- The second lexer gives tokens and errors that are related to those of the first one, and
related tokens are blamed in diagnostics that are related. -/
structure Lexer.Related (R : Token → Token → Prop) (E D : ScriptError → ScriptError → Prop)
    (lexer lexer' : Lexer) : Prop where
  indistinct : Token.Indistinct R
  items : ∀ n, (relating R E).Items (lexer.item n) (lexer'.item n)
  blame : ∀ n cause {t t' : Token}, R t t' →
    D (.located ((lexer.after n).blame cause t)) (.located ((lexer'.after n).blame cause t'))
  error : ∀ {e e' : ScriptError}, E e e' → D e e'

/-- Results of which the second one has the commands of `earlier` in front, or errors that are
related. -/
inductive Script.Results (D : ScriptError → ScriptError → Prop) (earlier : Script) :
    Except (Halt ScriptError) Script → Except (Halt ScriptError) Script → Prop
  | ok {script script' : Script} (h : earlier.After script script') :
      Results D earlier (.ok script) (.ok script')
  | fatal {e e' : ScriptError} (h : D e e') :
      Results D earlier (.error (.fatal e)) (.error (.fatal e'))

section

variable {D : ScriptError → ScriptError → Prop} {earlier script : Script} {e : ScriptError}
  {result : Except (Halt ScriptError) Script}

theorem Script.Results.of_ok (h : earlier.Results D (.ok script) result) :
    result = .ok { commands := earlier.commands ++ script.commands } := by
  cases h with
  | @ok _ script' h =>
    obtain ⟨commands⟩ := script'
    obtain rfl : commands = earlier.commands ++ script.commands := h
    rfl

theorem Script.Results.of_fatal (h : earlier.Results D (.error (.fatal e)) result) :
    ∃ e', result = .error (.fatal e') ∧ D e e' := by
  cases h with
  | fatal h => exact ⟨_, rfl, h⟩

end

namespace Lexer.Related

variable {R : Token → Token → Prop} {E D : ScriptError → ScriptError → Prop}
  {lexer lexer' whole : Lexer} {n w : Nat} {t last last' : Token} {e : ScriptError}
  {earlier : Script}

theorem matched (h : lexer.Related R E D lexer') : lexer.Matched R E lexer' :=
  ⟨h.indistinct.kind_eq, h.items⟩

theorem token (h : lexer.Related R E D lexer') (ht : lexer.item n = .ok (some t)) :
    ∃ t', lexer'.item n = .ok (some t') ∧ R t t' :=
  h.matched.token ht

theorem fault (h : lexer.Related R E D lexer') (he : lexer.item n = .error e) :
    ∃ e', lexer'.item n = .error e' ∧ E e e' :=
  h.matched.fault he

theorem after (h : lexer.Related R E D lexer') (n : Nat) :
    (lexer.after n).Related R E D (lexer'.after n) where
  indistinct := h.indistinct
  items m := by
    rw [← item_add, ← item_add]
    exact h.items _
  blame m cause t t' ht := by
    rw [← after_add, ← after_add]
    exact h.blame _ cause ht
  error := h.error

theorem endsAt (h : lexer.Related R E D lexer') (hends : lexer.EndsAt n) : lexer'.EndsAt n :=
  h.matched.endsAt hends

theorem diagnosis (h : lexer.Related R E D lexer') (n : Nat) (hlast : R last last') :
    D (lexer.diagnosis n last) (lexer'.diagnosis n last') := by
  have hafter := h.after n
  obtain ⟨m, -, hends⟩ := (lexer.after n).exists_endsAt
  have hends' := hafter.endsAt hends
  unfold Lexer.diagnosis
  rcases hitem : (lexer.after n).item m with e | _ | t
  · obtain ⟨e', he', he⟩ := hafter.fault hitem
    rw [hends.failure_of_error hitem, hends'.failure_of_error he']
    exact h.error he
  · exact absurd hitem (item_ne_none m)
  · obtain ⟨t', ht', -⟩ := hafter.token hitem
    rw [hends.failure_of_token hitem, hends'.failure_of_token ht']
    dsimp only
    rw [hends.toEnd_eq.1, hends'.toEnd_eq.1]
    exact hafter.blame _ _ hlast

theorem rejection (h : lexer.Related R E D (whole.after w)) (hn : 1 ≤ n) :
    Script.Results D earlier (.error (lexer.rejection n)) (.error (whole.rejection (n + w))) := by
  have hindex : n + w - 1 = w + (n - 1) := by omega
  unfold Lexer.rejection
  rw [hindex, item_add]
  rcases hitem : lexer.item (n - 1) with e | _ | last
  · obtain ⟨e', he', he⟩ := h.fault hitem
    rw [he']
    exact .fatal (h.error he)
  · exact absurd hitem (item_ne_none _)
  · obtain ⟨last', hlast', hr⟩ := h.token hitem
    rw [hlast']
    dsimp only
    rw [Nat.add_comm n w, diagnosis_add]
    exact .fatal (h.diagnosis n hr)

/-- What the conclusion from lines is for a lexer that has read others before. -/
theorem conclusion (h : lexer.Related R E D (whole.after w))
    {o o' : Outcome Blame ScriptError Script}
    (hanswer : (relating R E).Answers earlier.After o.answer o'.answer)
    (hstop : o'.stop = o.stop + w) (hreach : o'.reach = o.reach + w) :
    earlier.Results D (lexer.conclusion o) (whole.conclusion o') := by
  unfold Lexer.conclusion
  rcases hfault : o.answer with (e | blame | _) | script <;>
    rcases hfault' : o'.answer with (e' | blame' | _) | script' <;>
    rw [hfault, hfault'] at hanswer
  all_goals try exact hanswer.elim
  · exact .fatal (h.error hanswer)
  · obtain ⟨hcause, -, htoken, -⟩ : blame.Related R blame' := hanswer
    have hafter : whole.after o'.reach = (whole.after w).after o.reach := by
      rw [hreach, Nat.add_comm, after_add]
    dsimp only
    rw [hafter, hcause]
    exact .fatal (h.blame _ _ htoken)
  · have hitem' : whole.item o'.stop = (whole.after w).item o.stop := by
      rw [hstop, Nat.add_comm, item_add]
    dsimp only
    rw [hitem']
    rcases hitem : lexer.item o.stop with e | _ | mark
    · obtain ⟨e', he', he⟩ := h.fault hitem
      rw [he']
      exact .fatal (h.error he)
    · exact absurd hitem (item_ne_none _)
    · obtain ⟨mark', hmark', hr⟩ := h.token hitem
      have hkind' := h.indistinct.kind_eq hr
      rw [hmark']
      by_cases hkind : mark.kind = .endMarker
      · simpa [hkind, hkind'] using Script.Results.ok hanswer
      · have hmax : max o'.reach (o'.stop + 1) = max o.reach (o.stop + 1) + w := by omega
        simpa [hkind, hkind', hmax] using h.rejection (by omega)

variable {fuel fuel' rounds rounds' : Nat} {script script' : Script}

/-- The lines of the one lexer are those of the other. -/
theorem lines (h : lexer.Related R E D (whole.after w)) (hfuel : fuel ≤ fuel')
    (hrounds : rounds ≤ rounds') (hafter : earlier.After script script') (pos : Nat) :
    let o := linesOutcome (lexer.comesTo fuel .scriptLine) rounds script pos
    let o' := linesOutcome (whole.comesTo fuel' .scriptLine) rounds' script' (pos + w)
    o.Finishes → (earlier.commands = #[] ∨ ∀ blame, o.answer = .error (.complaint blame) →
        blame.cause ≠ .surfaceWithoutCommand) →
      (relating R E).Answers earlier.After o.answer o'.answer ∧ o'.stop = o.stop + w ∧
        o'.reach = o.reach + w := by
  intro o o' hfinishes hcause
  have hitems : ∀ i, i < o.reach → (relating R E).Items (lexer.item i) (whole.item (i + w)) :=
    fun i _ => by
      rw [Nat.add_comm, item_add]
      exact h.items i
  have hline : ∀ pos, (relating R E).Outcomes w o.reach (Option.Rel (Line.Related R))
      (lexer.comesTo fuel .scriptLine pos) (whole.comesTo fuel' .scriptLine (pos + w)) := fun pos =>
    evaluate_alike (scriptGrammar_related h.indistinct _) hitems hfuel Rule.scriptLine pos
  rcases linesOutcome_related hline hrounds hafter hcause with hlt | hout | halike
  · exact absurd hlt (Nat.lt_irrefl _)
  · exact absurd hfinishes hout
  · exact halike

end Lexer.Related

/-- Scripts of related tokens are the same, or there are related errors. -/
theorem Script.results_related {R : Token → Token → Prop} {E D : ScriptError → ScriptError → Prop}
    {source source' : Source} (h : (Lexer.ofSource source).Related R E D (Lexer.ofSource source')) :
    Script.empty.Results D (Script.ofSource source) (Script.ofSource source') := by
  set lexer := Lexer.ofSource source
  set lexer' := Lexer.ofSource source'
  -- fuel that is enough for both
  obtain ⟨fuel, hfuel, hfuel'⟩ : ∃ fuel, Parser.fuel (.ofLexer lexer) ≤ fuel ∧
      Parser.fuel (.ofLexer lexer') ≤ fuel := ⟨_, Nat.le_max_left _ _, Nat.le_max_right _ _⟩
  obtain ⟨wall, hwall, hends⟩ := lexer.exists_endsAt
  have hfinishes := Lexer.lines_finish hends.wall (Nat.zero_le wall)
    ((fuelFor_le_fuel_ofLexer hwall).trans hfuel)
  have hafter : Script.empty.After .empty .empty := rfl
  obtain ⟨hanswer, hstop, hreach⟩ := h.lines (w := 0) (Nat.le_refl fuel) (Nat.le_refl fuel)
    hafter 0 hfinishes (.inl rfl)
  rw [ofSource_eq_conclusion hfuel, ofSource_eq_conclusion hfuel']
  exact h.conclusion hanswer hstop hreach

end OpticScript
