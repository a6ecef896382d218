import OpticScript.Proofs.Grammar.Printed
import OpticScript.Proofs.Grammar.Soundness

/-!
# Actions that are spelled are matched

The rule of actions joins matches of it. A word or a group is one match, and the action that comes
after it is another one, up to where no action begins (`SpellsAction.matches_action`). A value is
an action if it is spelled as one, and an expression is not taken for an action if it does not
begin with motion codes (`Value.SpelledBy.matches_value`).
-/

namespace OpticScript

open Packrat Packrat.Branch

section

variable {items : Nat → Except ScriptError (Option Token)} {pos mid stop : Nat} {t : Token}

theorem isMotion_eq_true_iff {word : String} : Phrase.isMotion word = true ↔ IsMotionWord word := by
  refine ⟨isMotionWord_of_isMotion, fun h => ?_⟩
  rw [Phrase.isMotion, Bool.and_eq_true]
  refine ⟨by simpa using h.1, List.all_eq_true.2 fun c hc => ?_⟩
  simpa [Phrase.motionCodes] using h.2 c hc

/-! ## Where no action begins -/

/-- The join of two actions. -/
def actionJoin : Phrase String :=
  .call .action fun first => .call .action fun second => .done (first ++ second)

theorem isJoinRule_action :
    IsJoinRule scriptGrammar items .action actionJoin Phrase.action.tail where
  strategy := rfl
  branches := rfl
  join_none _ _ := matches_call_none (matches_seed _)

theorem seeded_token {start : Nat} {seed : Memo String} {kind : TokenKind} {result : Option Token}
    (h : (Rule.token kind).Matches items pos result stop) :
    Packrat.Matches (seededWith scriptGrammar items .action start seed)
      (.token kind) pos result stop :=
  matches_unseeded (fun heq => by simp at heq) h

/-- An action that begins after the start does not depend on the seed. -/
theorem seeded_action {start : Nat} {seed : Memo String} {result : Option String}
    (hlt : start < pos) (h : Rule.action.Matches items pos result stop) :
    Packrat.Matches (seededWith scriptGrammar items .action start seed) .action pos result stop :=
  matches_unseeded (fun _ => hlt.ne) h

/-- No action begins where no brace and no square bracket comes, no action in parentheses and no
word of motion codes. -/
theorem matches_action_none_of (hbrackets : Sees items pos (· ∉ [.leftBrace, .leftBracket]))
    (hparens : ∃ mid, Branch.Matches items
      (seededWith scriptGrammar items .action pos { result := none, stop := pos })
      (Phrase.bracketed .leftParen .rightParen) pos none mid)
    (hword : Sees items pos (· ≠ .name) ∨
      ∃ t, items pos = .ok (some t) ∧ t.kind = .name ∧ ¬IsMotionWord t.text) :
    Rule.action.Matches items pos none pos := by
  have hnone : ∀ kind ∈ [TokenKind.leftBrace, .leftBracket],
      Packrat.Matches (seededWith scriptGrammar items .action pos { result := none, stop := pos })
        (.token kind) pos none pos := fun kind hkind =>
    seeded_token (matches_token_none (hbrackets.imp fun _ hnot heq => hnot (heq ▸ hkind)))
  have hword : ∃ mid, Branch.Matches items
      (seededWith scriptGrammar items .action pos { result := none, stop := pos })
      (do let name ← Phrase.token .name
          Branch.require (Phrase.isMotion name.text)
          return name.text) pos (none : Option String) mid := by
    rcases hword with hother | ⟨t, ht, hkind, hcodes⟩
    · exact ⟨_, matches_call_none (seeded_token (matches_token_none hother))⟩
    · have hmotion : Phrase.isMotion t.text = false :=
        Bool.eq_false_iff.2 fun h => hcodes (isMotion_eq_true_iff.1 h)
      exact ⟨_, matches_call (seeded_token (matches_token ht hkind)) (matches_require_none hmotion)⟩
  obtain ⟨mid, hparens⟩ := hparens
  obtain ⟨mid', hword⟩ := hword
  have hbranches : Branches.Match items
      (seededWith scriptGrammar items .action pos { result := none, stop := pos }) Phrase.action pos
      none pos :=
    Branches.match_tail (matches_call_none (matches_seed _))
      (Branches.match_tail (matches_call_none (hnone _ (by decide)))
      (Branches.match_tail (matches_call_none (hnone _ (by decide)))
      (Branches.match_tail hparens (Branches.match_tail hword (Branches.match_nil _)))))
  exact matches_of_grows rfl (grows_done hbranches (by simp))

/-- No action begins with a token that is no bracket and no word of motion codes. -/
theorem matches_action_none (ht : items pos = .ok (some t))
    (hbracket : t.kind ∉ [.leftBrace, .leftBracket, .leftParen])
    (hname : t.kind = .name → ¬IsMotionWord t.text) : Rule.action.Matches items pos none pos := by
  have hbrackets : Sees items pos (· ∉ [.leftBrace, .leftBracket]) :=
    ⟨t, ht, fun hmem => hbracket (List.mem_append_left [TokenKind.leftParen] hmem)⟩
  have hparen : t.kind ≠ .leftParen := fun heq => hbracket (by simp [heq])
  refine matches_action_none_of hbrackets
    ⟨_, matches_call_none (seeded_token (matches_token_none ⟨t, ht, hparen⟩))⟩ ?_
  by_cases hkind : t.kind = .name
  · exact .inr ⟨t, ht, hkind, hname hkind⟩
  · exact .inl ⟨t, ht, hkind⟩

/-- No action begins with a parenthesis that none comes after, or one that is not closed. -/
theorem matches_action_none_paren (ht : items pos = .ok (some t)) (hkind : t.kind = .leftParen)
    (hinner : Rule.action.Matches items (pos + 1) none (pos + 1) ∨ ∃ codes stop,
      Rule.action.Matches items (pos + 1) (some codes) stop ∧ Sees items stop (· ≠ .rightParen)) :
    Rule.action.Matches items pos none pos := by
  have hopen : Packrat.Matches
      (seededWith scriptGrammar items .action pos { result := none, stop := pos })
      (.token .leftParen) pos (some t) (pos + 1) := seeded_token (matches_token ht hkind)
  refine matches_action_none_of ⟨t, ht, by simp [hkind]⟩ ?_ (.inl ⟨t, ht, by simp [hkind]⟩)
  rcases hinner with hnone | ⟨codes, stop, hsome, hclose⟩
  · exact ⟨_, matches_call hopen (matches_call_none (seeded_action (Nat.lt_succ_self pos) hnone))⟩
  · exact ⟨_, matches_call hopen (matches_call (seeded_action (Nat.lt_succ_self pos) hsome)
      (matches_call_none (seeded_token (matches_token_none hclose))))⟩

/-- The next token does not go on with an action. -/
def ActionEnds (items : Nat → Except ScriptError (Option Token)) (pos : Nat) : Prop :=
  Sees items pos (· ∉ [.name, .leftBrace, .leftBracket, .leftParen, .number])

theorem ActionEnds.matches_action_none (h : ActionEnds items pos) :
    Rule.action.Matches items pos none pos := by
  obtain ⟨t, ht, hkind⟩ := h
  refine OpticScript.matches_action_none ht ?_ ?_
  · simp at hkind ⊢
    tauto
  · intro hname
    simp [hname] at hkind

/-! ## Words and groups -/

/-- A word or a group. -/
abbrev ActionUnit (items : Nat → Except ScriptError (Option Token)) (pos : Nat) (codes : String)
    (stop : Nat) : Prop :=
  MatchesUnit scriptGrammar items .action Phrase.action.tail pos codes stop

theorem joinStops_action {codes : String} (hlt : pos < stop) (hstop : ActionEnds items stop) :
    JoinStops scriptGrammar items .action actionJoin pos codes stop :=
  ⟨stop, matches_call (matches_seed _)
    (matches_call_none (seeded_action hlt hstop.matches_action_none))⟩

/-- An action that ends after a word or a group. -/
theorem ActionUnit.matches_action {codes : String} (h : ActionUnit items pos codes stop)
    (hstop : ActionEnds items stop) : Rule.action.Matches items pos (some codes) stop :=
  h.matches_unit isJoinRule_action (joinStops_action h.lt_stop hstop)

/-- An action that goes on after a word or a group. -/
theorem ActionUnit.matches_join {codes more : String} (h : ActionUnit items pos codes mid)
    (hmore : Rule.action.Matches items mid (some more) stop) (hlt : mid < stop)
    (hstop : ActionEnds items stop) : Rule.action.Matches items pos (some (codes ++ more)) stop :=
  MatchesUnit.matches_join h isJoinRule_action hlt
    (matches_call (matches_seed _)
      (matches_call (seeded_action h.lt_stop hmore) (matches_done _ _)))
    (joinStops_action (h.lt_stop.trans hlt) hstop)

theorem actionUnit_word (ht : items pos = .ok (some t)) (hkind : t.kind = .name)
    (hword : IsMotionWord t.text) : ActionUnit items pos t.text (pos + 1) := by
  refine ⟨fun seed => ?_, Nat.lt_succ_self pos⟩
  have hnone : ∀ kind, kind ≠ .name →
    Packrat.Matches (seededWith scriptGrammar items .action pos seed)
      (.token kind) pos none pos := fun kind hne =>
    seeded_token (matches_token_none ⟨t, ht, fun heq => hne (heq.symm.trans hkind)⟩)
  refine Branches.match_tail (matches_call_none (hnone _ (by decide)))
    (Branches.match_tail (matches_call_none (hnone _ (by decide)))
    (Branches.match_tail (matches_call_none (hnone _ (by decide))) (Branches.match_head ?_)))
  exact matches_call (seeded_token (matches_token ht hkind))
    (matches_require (isMotion_eq_true_iff.2 hword) (matches_done _ _))

/-- The repeat count that comes after a closing bracket is read up to here : a number after a
brace, or nothing. -/
inductive CountReads (items : Nat → Except ScriptError (Option Token)) (b : Bracket) (pos : Nat) :
    String → Nat → Prop
  | nothing (hnext : b = .brace → Sees items pos (· ≠ .number)) : CountReads items b pos "" pos
  | count {number : Token} {value : Int} (hb : b = .brace) (hitem : items pos = .ok (some number))
      (hkind : number.kind = .number) (hvalue : number.number? = some (.integer value)) :
      CountReads items b pos value.repr (pos + 1)

theorem CountReads.le {b : Bracket} {count : String} (h : CountReads items b pos count stop) :
    pos ≤ stop := by
  cases h <;> omega

/-- The spelling of a repeat count is read off its token, if there is one. -/
theorem CountReads.matches_count {count text : String} {start : Nat} {seed : Memo String}
    (h : CountReads items .brace pos count stop) :
    Branch.Matches items (seededWith scriptGrammar items .action start seed)
      (do let count ← Phrase.optionalToken .number
          let count ← Branch.ofOption (Phrase.repeatCount? count)
          return text ++ count) pos (some (text ++ count)) stop := by
  cases h with
  | nothing hnext =>
    exact matches_maybe_none (seeded_token (matches_token_none (hnext rfl)))
      (matches_ofOption rfl (matches_done _ _))
  | count _ hitem hkind hvalue =>
    exact matches_maybe (seeded_token (matches_token hitem hkind))
      (matches_ofOption (by rw [Phrase.repeatCount?, hvalue]) (matches_done _ _))

/-- No count comes after other brackets than braces. -/
theorem CountReads.eq_nothing {b : Bracket} {count : String} (h : CountReads items b pos count stop)
    (hb : b ≠ .brace) : count = "" ∧ stop = pos := by
  cases h with
  | nothing => exact ⟨rfl, rfl⟩
  | count hbrace => exact absurd hbrace hb

theorem actionUnit_group {b : Bracket} {left right : Token} {inner count : String}
    (hleft : items pos = .ok (some left)) (hopening : left.kind = b.opening.kind)
    (hinner : Rule.action.Matches items (pos + 1) (some inner) mid) (hlt : pos < mid)
    (hright : items mid = .ok (some right)) (hclosing : right.kind = b.closing.kind)
    (hcount : CountReads items b (mid + 1) count stop) :
    ActionUnit items pos (left.text ++ inner ++ right.text ++ count) stop := by
  refine ⟨fun seed => ?_, by have := hcount.le; omega⟩
  have hnone : ∀ kind, kind ≠ b.opening.kind →
      Packrat.Matches (seededWith scriptGrammar items .action pos seed)
        (.token kind) pos none pos :=
    fun kind hne => seeded_token
      (matches_token_none ⟨left, hleft, fun heq => hne (heq.symm.trans hopening)⟩)
  have hopen : Packrat.Matches (seededWith scriptGrammar items .action pos seed)
      (.token b.opening.kind) pos (some left) (pos + 1) :=
        seeded_token (matches_token hleft hopening)
  have hmotion : Packrat.Matches (seededWith scriptGrammar items .action pos seed) .action (pos + 1)
      (some inner) mid := seeded_action (Nat.lt_succ_self pos) hinner
  have hclose : Packrat.Matches (seededWith scriptGrammar items .action pos seed)
      (.token b.closing.kind) mid (some right) (mid + 1) :=
        seeded_token (matches_token hright hclosing)
  cases b with
  | brace =>
    exact Branches.match_head (matches_call hopen (matches_call hmotion (matches_call hclose
      hcount.matches_count)))
  | bracket =>
    obtain ⟨rfl, rfl⟩ := hcount.eq_nothing (by decide)
    rw [String.append_empty]
    refine Branches.match_tail (matches_call_none (hnone _ (by decide))) (Branches.match_head ?_)
    exact matches_call hopen (matches_call hmotion (matches_call hclose (matches_done _ _)))
  | paren =>
    obtain ⟨rfl, rfl⟩ := hcount.eq_nothing (by decide)
    rw [String.append_empty]
    refine Branches.match_tail (matches_call_none (hnone _ (by decide)))
      (Branches.match_tail (matches_call_none (hnone _ (by decide))) (Branches.match_head ?_))
    exact matches_call hopen (matches_call hmotion (matches_call hclose (matches_done _ _)))

/-! ## Actions that are derived -/

/-- An action is read up to here : it is matched if it ends here, and with an action that comes
next if that ends where it stops. -/
structure ActionReads (items : Nat → Except ScriptError (Option Token)) (pos : Nat) (codes : String)
    (stop : Nat) : Prop where
  ends : ActionEnds items stop → Rule.action.Matches items pos (some codes) stop
  goesOn : ∀ {more stop'}, Rule.action.Matches items stop (some more) stop' → stop < stop' →
    ActionEnds items stop' → Rule.action.Matches items pos (some (codes ++ more)) stop'

theorem ActionUnit.reads {codes : String} (h : ActionUnit items pos codes stop) :
    ActionReads items pos codes stop :=
  ⟨ActionUnit.matches_action h, fun hmore hlt hstop => ActionUnit.matches_join h hmore hlt hstop⟩

theorem ActionReads.append {codes more : String} (h : ActionReads items pos codes mid)
    (h' : ActionReads items mid more stop) (hlt : mid < stop) :
    ActionReads items pos (codes ++ more) stop where
  ends hstop := h.goesOn (h'.ends hstop) hlt hstop
  goesOn hmatch hlt' hstop := by
    rw [String.append_assoc]
    exact h.goesOn (h'.goesOn hmatch hlt' hstop) (hlt.trans hlt') hstop

theorem DerivesAction.not_number {tokens rest : List Token} {codes : String}
    (h : DerivesAction tokens rest codes) (hlists : Lists items pos tokens) :
    Sees items pos (· ≠ .number) := by
  induction h with
  | join _ _ ihl _ => exact ihl hlists
  | braces hleft | brackets hleft | parens hleft | codes hleft =>
    exact ⟨_, hlists.1, by simp [hleft]⟩

/-- An action that is derived is read, if no number comes after it. -/
theorem DerivesAction.reads {tokens rest : List Token} {codes : String}
    (h : DerivesAction tokens rest codes) (hlists : Lists items pos tokens) :
    ∃ stop, pos < stop ∧ stop + rest.length = pos + tokens.length ∧ Lists items stop rest ∧
      (Sees items stop (· ≠ .number) → ActionReads items pos codes stop) := by
  have hclosed : ∀ {b : Bracket} {right : Token} {stop : Nat}, items stop = .ok (some right) →
      right.kind = b.closing.kind → ActionEnds items stop ∧ Sees items stop (· ≠ .number) := by
    intro b right stop hright hkind
    cases b <;> exact ⟨⟨right, hright, by simp [hkind, Bracket.closing, Symbol.mark]⟩,
      right, hright, by simp [hkind, Bracket.closing, Symbol.mark]⟩
  induction h generalizing pos with
  | join _ right ihl ihr =>
    obtain ⟨mid, hmid, hlength, hmore, hl⟩ := ihl hlists
    obtain ⟨stop, hstop, hlength', hrest, hr⟩ := ihr hmore
    exact ⟨stop, hmid.trans hstop, by omega, hrest,
      fun hnext => (hl (right.not_number hmore)).append (hr hnext) hstop⟩
  | @braces left right tokens mid rest inner count hleft action hright repeats ih =>
    obtain ⟨stop, hstop, hlength, ⟨ht, hmore⟩, hinner⟩ := ih hlists.2
    obtain ⟨hends, hnumber⟩ := hclosed (b := .brace) ht hright
    have hgroup : ∀ {count : String} {stop' : Nat}, CountReads items .brace (stop + 1) count stop' →
        ActionUnit items pos (left.text ++ inner ++ right.text ++ count) stop' :=
      actionUnit_group hlists.1 hleft ((hinner hnumber).ends hends) (by omega) ht hright
    cases repeats with
    | nothing =>
      exact ⟨stop + 1, by omega, by simp only [List.length_cons] at hlength ⊢; omega, hmore,
        fun hnext => (hgroup (.nothing fun _ => hnext)).reads⟩
    | count hkind hvalue =>
      exact ⟨stop + 1 + 1, by omega, by simp only [List.length_cons] at hlength ⊢; omega, hmore.2,
        fun _ => (hgroup (.count rfl hmore.1 hkind hvalue)).reads⟩
  | @brackets left right tokens rest inner hleft action hright ih =>
    obtain ⟨stop, hstop, hlength, ⟨ht, hmore⟩, hinner⟩ := ih hlists.2
    obtain ⟨hends, hnumber⟩ := hclosed (b := .bracket) ht hright
    refine ⟨stop + 1, by omega, by simp only [List.length_cons] at hlength ⊢; omega, hmore,
      fun _ => ?_⟩
    rw [← String.append_empty (s := left.text ++ inner ++ right.text)]
    exact (actionUnit_group (b := .bracket) hlists.1 hleft ((hinner hnumber).ends hends)
      (by omega) ht hright (.nothing (by simp))).reads
  | @parens left right tokens rest inner hleft action hright ih =>
    obtain ⟨stop, hstop, hlength, ⟨ht, hmore⟩, hinner⟩ := ih hlists.2
    obtain ⟨hends, hnumber⟩ := hclosed (b := .paren) ht hright
    refine ⟨stop + 1, by omega, by simp only [List.length_cons] at hlength ⊢; omega, hmore,
      fun _ => ?_⟩
    rw [← String.append_empty (s := left.text ++ inner ++ right.text)]
    exact (actionUnit_group (b := .paren) hlists.1 hleft ((hinner hnumber).ends hends) (by omega) ht
      hright (.nothing (by simp))).reads
  | codes hkind hword =>
    exact ⟨pos + 1, Nat.lt_succ_self pos, by simp only [List.length_cons]; omega, hlists.2,
      fun _ => (actionUnit_word hlists.1 hkind hword).reads⟩

/-- An action that is derived is matched, up to where no action goes on. -/
theorem DerivesAction.matches_action {tokens rest : List Token} {codes : String}
    (h : DerivesAction tokens rest codes) (hlists : Lists items pos tokens) :
    ∃ stop, pos < stop ∧ stop + rest.length = pos + tokens.length ∧ Lists items stop rest ∧
      (ActionEnds items stop → Rule.action.Matches items pos (some codes) stop) := by
  obtain ⟨stop, hstop, hlength, hrest, hreads⟩ := h.reads hlists
  refine ⟨stop, hstop, hlength, hrest, fun hends => (hreads ?_).ends hends⟩
  exact Sees.imp hends fun kind hkind heq => hkind (by simp [heq])

/-! ## Actions that are spelled -/

/-- An action that is spelled is derived from the tokens. -/
theorem SpellsAction.derives {symbols : List Symbol} (h : SpellsAction symbols) (hne : symbols ≠ [])
    {tokens : List Token} (htokens : tokens.map Token.symbol = symbols) (rest : List Token) :
    DerivesAction (tokens ++ rest) rest (String.ofList (spelled symbols)) := by
  -- what comes after a word or a group is the end or an action again
  have hjoin : ∀ {before tokens rest : List Token} {codes : String} {symbols : List Symbol},
      (symbols ≠ [] → DerivesAction (tokens ++ rest) rest (String.ofList (spelled symbols))) →
      tokens.map Token.symbol = symbols → DerivesAction before (tokens ++ rest) codes →
      DerivesAction before rest (codes ++ String.ofList (spelled symbols)) := by
    intro before tokens rest codes symbols ih htokens hunit
    rcases eq_or_ne symbols [] with rfl | hne
    · obtain rfl := List.map_eq_nil_iff.1 htokens
      simpa using hunit
    · exact .join hunit (ih hne)
  induction h generalizing tokens rest with
  | nil => exact absurd rfl hne
  | @word w symbols hword hnext tail ih =>
    obtain ⟨t, tokens, rfl, ht, hmore⟩ := List.map_eq_cons_iff.1 htokens
    have hkind : t.kind = .name := congrArg Symbol.kind ht
    obtain rfl : t.text = w := congrArg Symbol.text ht
    have htext : String.ofList (spelled (.name t.text :: symbols)) =
        t.text ++ String.ofList (spelled symbols) := by
      rw [← String.toList_inj]
      simp [Symbol.name, Symbol.mark]
    rw [htext]
    exact hjoin (fun hne => ih hne hmore rest) hmore (.codes hkind hword)
  | @group b inner symbols count hinner hnonempty hcount tail ihinner ih =>
    obtain ⟨group, tokens, rfl, hgroup, hmore⟩ := List.map_eq_append_iff.1 htokens
    obtain ⟨opened, closed, rfl, hopened, hclosed⟩ := List.map_eq_append_iff.1 hgroup
    obtain ⟨left, contents, rfl, hleft, hcontents⟩ := List.map_eq_cons_iff.1 hopened
    obtain ⟨right, counts, rfl, hright, hcounts⟩ := List.map_eq_cons_iff.1 hclosed
    have hopen : left.kind = b.opening.kind := congrArg Symbol.kind hleft
    have hclose : right.kind = b.closing.kind := congrArg Symbol.kind hright
    have htext :
        String.ofList (spelled (b.opening :: inner ++ b.closing :: countSymbols count ++ symbols)) =
        left.text ++ String.ofList (spelled inner) ++ right.text ++
          String.ofList (spelled (countSymbols count)) ++ String.ofList (spelled symbols) := by
      rw [← String.toList_inj, ← hleft, ← hright]
      simp [Token.symbol]
    rw [htext]
    refine hjoin (fun hne => ih hne hmore rest) hmore ?_
    simp only [List.append_assoc, List.cons_append]
    -- only braces have a count
    have hnone : b ≠ .brace → count = none ∧ counts = [] := fun hb => by
      obtain rfl : count = none :=
        Option.eq_none_iff_forall_not_mem.2 fun n hn => hb (hcount n hn).1
      exact ⟨rfl, List.map_eq_nil_iff.1 hcounts⟩
    have hempty : String.ofList (spelled (countSymbols none)) = "" := rfl
    cases b with
    | brace =>
      refine .braces hopen (ihinner hnonempty hcontents _) hclose ?_
      cases count with
      | none =>
        obtain rfl := List.map_eq_nil_iff.1 hcounts
        exact .nothing _
      | some n =>
        obtain ⟨number, rfl, hnumber⟩ := List.map_eq_singleton_iff.1 hcounts
        have hspelled : String.ofList (spelled (countSymbols (some n))) = (n : Int).repr := by
          simp [countSymbols, Symbol.number, Number.render]
        rw [hspelled]
        exact .count (congrArg Symbol.kind hnumber) (Symbol.number?_eq hnumber)
    | bracket =>
      obtain ⟨rfl, rfl⟩ := hnone (by decide)
      rw [hempty, String.append_empty]
      exact .brackets hopen (ihinner hnonempty hcontents _) hclose
    | paren =>
      obtain ⟨rfl, rfl⟩ := hnone (by decide)
      rw [hempty, String.append_empty]
      exact .parens hopen (ihinner hnonempty hcontents _) hclose

/-- An action that is spelled is matched. -/
theorem SpellsAction.matches_action {symbols : List Symbol} (h : SpellsAction symbols)
    (hne : symbols ≠ []) (hshows : Shows items pos symbols)
    (hstop : ActionEnds items (pos + symbols.length)) :
    Rule.action.Matches items pos (some (String.ofList (spelled symbols)))
      (pos + symbols.length) := by
  obtain ⟨tokens, htokens, hlists⟩ := shows_iff_lists.1 hshows
  have hlength : symbols.length = tokens.length := by rw [← htokens, List.length_map]
  have hderives := h.derives hne htokens []
  rw [List.append_nil] at hderives
  obtain ⟨stop, -, heq, -, hmatches⟩ := hderives.matches_action hlists
  obtain rfl : stop = pos + symbols.length := by rw [hlength]; simpa using heq
  exact hmatches hstop

/-! ## Values -/

/-- The next token is one that comes after a value. -/
def ValueEnds (items : Nat → Except ScriptError (Option Token)) (pos : Nat) : Prop :=
  Sees items pos (· ∈ [.comma, .equals, .newline, .comment])

theorem ValueEnds.actionEnds (h : ValueEnds items pos) : ActionEnds items pos :=
  Sees.imp h fun kind hkind => by
    revert hkind
    cases kind <;> decide

theorem ValueEnds.sumEnds (h : ValueEnds items pos) : Tier.sum.EndsAt items pos :=
  Sees.imp h fun kind hkind => by
    revert hkind
    cases kind <;> decide

/-- An expression begins with its leftmost operand, or with its sign. -/
theorem Expr.symbols_leftmost (e : Expr) :
    ∃ symbol symbols, e.symbols = symbol :: symbols ∧
      symbol.kind ∉ [.leftBrace, .leftBracket, .leftParen] ∧
      (symbol.kind = .name → e.leftmost = .name symbol.text) := by
  induction e with
  | number value => exact ⟨_, _, rfl, by simp [Symbol.number], by simp [Symbol.number]⟩
  | name spelling => exact ⟨_, _, rfl, by simp [Symbol.name, Symbol.mark], fun _ => rfl⟩
  | text value => exact ⟨_, _, rfl, by simp [Symbol.quoted], by simp [Symbol.quoted]⟩
  | unary sign operand =>
    refine ⟨_, _, rfl, ?_, ?_⟩ <;> cases sign <;> simp [Symbol.mark, Sign.kind]
  | binary operator left right ih =>
    obtain ⟨symbol, symbols, heq, hkind, hname⟩ := ih
    exact ⟨symbol, _, by rw [Expr.symbols, heq]; rfl, hkind, hname⟩

/-- A value that is spelled is matched. -/
theorem Value.SpelledBy.matches_value {v : Value} {symbols : List Symbol} (h : v.SpelledBy symbols)
    (hshows : Shows items pos symbols) (hstop : ValueEnds items (pos + symbols.length)) :
    Rule.value.Matches items pos (some v) (pos + symbols.length) := by
  cases h with
  | action h hne =>
    exact Rule.matches_of_branches rfl (Branches.match_head
      (matches_call (h.matches_action hne hshows hstop.actionEnds) (matches_done _ _)))
  | @expr e h hleftmost =>
    obtain ⟨symbol, more, hsymbols, hbracket, hname⟩ := e.symbols_leftmost
    obtain ⟨⟨t, ht, rfl⟩, -⟩ := hsymbols ▸ hshows
    have haction : Rule.action.Matches items pos none pos :=
      matches_action_none ht hbracket fun hkind => hleftmost _ (hname hkind)
    exact Rule.matches_of_branches rfl (Branches.match_tail (matches_call_none haction)
      (Branches.match_head
        (matches_call ((h.reads hshows).matches_sum hstop.sumEnds) (matches_done _ _))))

end

end OpticScript
