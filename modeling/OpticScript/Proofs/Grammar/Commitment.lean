import OpticScript.Proofs.Grammar.Rules

/-!
# Values that are cut short

A value is an action if one begins it, so of an expression that begins with a word of motion
codes, in parentheses or not, nothing but that word is read (`DerivesMotion`). If an operator
comes after it the expression is cut short (`CutShort`) : `c+1` is the action `c`, and the sum is
not found any more. No other expression begins with an action (`DerivesExpr.commits`). So the rule
of values matches every value that is derived, up to its end, or up to an operator if it is cut
short (`DerivesValue.matches_value`).

`NoneCutShort` looks for such values among all tokens of a script. They begin behind a comma or an
equals sign, and behind the first token of a command line.
-/

namespace OpticScript

open Packrat Packrat.Branch

/-! ## The tokens -/

/-- A word of motion codes, in so many parentheses. -/
inductive DerivesMotion : List Token → List Token → Prop
  | word {word : Token} {rest : List Token} (h : word.kind = .name)
      (hcodes : IsMotionWord word.text) : DerivesMotion (word :: rest) rest
  | parens {left right : Token} {tokens rest : List Token} (hleft : left.kind = .leftParen)
      (inner : DerivesMotion tokens (right :: rest)) (hright : right.kind = .rightParen) :
      DerivesMotion (left :: tokens) rest

/-- The kind of an operator of two operands. -/
def TokenKind.IsOperator (kind : TokenKind) : Prop := ∃ op : Operator, kind = op.kind

/-- An operator comes right after the motion codes that the tokens begin with. -/
def CutShort (tokens : List Token) : Prop :=
  ∃ operator rest, DerivesMotion tokens (operator :: rest) ∧ operator.kind.IsOperator

/-- A value may begin after this token, which is the first one of its line or not. -/
def Token.OpensValue (first : Bool) (t : Token) : Prop :=
  t.kind ∈ [.comma, .equals] ∨ first = true ∧ t.kind ∈ [.name, .plus]

/-- No value is cut short in the tokens, which begin with a new line or not. -/
def NoneCutShort : Bool → List Token → Prop
  | _, [] => True
  | first, t :: tokens =>
    (t.OpensValue first → ¬CutShort tokens) ∧ NoneCutShort (t.kind = .newline) tokens

/-- No value is cut short in the tokens, the first of which may begin one. -/
def Unabridged (tokens : List Token) : Prop := ¬CutShort tokens ∧ NoneCutShort false tokens

/-! ### Deciding it -/

instance (word : String) : Decidable (IsMotionWord word) :=
  decidable_of_iff (Phrase.isMotion word = true) isMotion_eq_true_iff

instance (kind : TokenKind) : Decidable kind.IsOperator :=
  decidable_of_iff (kind ∈ [.plus, .minus, .times, .divide, .floorDivide, .power]) <| by
    refine ⟨fun h => ?_, ?_⟩
    · simp only [List.mem_cons, List.not_mem_nil, or_false] at h
      rcases h with rfl | rfl | rfl | rfl | rfl | rfl
      exacts [⟨.add, rfl⟩, ⟨.subtract, rfl⟩, ⟨.multiply, rfl⟩, ⟨.divide, rfl⟩, ⟨.floorDivide, rfl⟩,
        ⟨.power, rfl⟩]
    · rintro ⟨op, rfl⟩
      cases op <;> decide

/-- What comes after the word of motion codes that the tokens begin with. -/
def afterMotion? : List Token → Option (List Token)
  | [] => none
  | t :: tokens =>
    if t.kind = .name ∧ IsMotionWord t.text then some tokens
    else if t.kind = .leftParen then
      match afterMotion? tokens with
      | some (right :: rest) => if right.kind = .rightParen then some rest else none
      | _ => none
    else none

variable {t : Token} {tokens rest : List Token}

theorem afterMotion?_eq_some_iff : afterMotion? tokens = some rest ↔ DerivesMotion tokens rest := by
  constructor
  · intro h
    fun_induction afterMotion? tokens generalizing rest with
    | case2 t tokens hword =>
      obtain rfl := Option.some.inj h
      exact .word hword.1 hword.2
    | case3 t tokens _ hleft right rest' hinner hright ih =>
      obtain rfl := Option.some.inj h
      exact .parens hleft (ih hinner) hright
    | _ => simp at h
  · intro h
    induction h with
    | word h hcodes => simp [afterMotion?, h, hcodes]
    | parens hleft _ hright ih => simp [afterMotion?, hleft, ih, hright]

instance (tokens : List Token) : Decidable (CutShort tokens) :=
  decidable_of_iff
      (((afterMotion? tokens).bind List.head?).any (decide ·.kind.IsOperator) = true) <| by
    simp only [CutShort, ← afterMotion?_eq_some_iff]
    rcases afterMotion? tokens with _ | _ | ⟨operator, rest⟩ <;> simp

instance (first : Bool) (t : Token) : Decidable (t.OpensValue first) :=
  inferInstanceAs (Decidable (_ ∨ _))

instance decidableNoneCutShort : (first : Bool) → (tokens : List Token) →
    Decidable (NoneCutShort first tokens)
  | _, [] => .isTrue trivial
  | first, t :: tokens =>
    have := decidableNoneCutShort (t.kind = .newline) tokens
    inferInstanceAs
      (Decidable ((t.OpensValue first → ¬CutShort tokens) ∧
        NoneCutShort (t.kind = .newline) tokens))

/-! ### Token by token -/

theorem TokenKind.IsOperator.notMem {kind : TokenKind} (h : kind.IsOperator) :
    kind ∉ [.comma, .equals, .newline, .comment, .endMarker, .name, .number, .leftBrace,
      .leftBracket, .leftParen, .rightParen] := by
  obtain ⟨op, rfl⟩ := h
  cases op <;> decide

theorem TokenKind.IsOperator.notMem_of_subset {kind : TokenKind} (h : kind.IsOperator)
    {kinds : List TokenKind}
    (hkinds : kinds ⊆ [.comma, .equals, .newline, .comment, .endMarker, .name, .number, .leftBrace,
      .leftBracket, .leftParen, .rightParen]) : kind ∉ kinds := fun hmem => h.notMem (hkinds hmem)

theorem SumOperator.isOperator {kind : TokenKind} {op : Operator} (h : SumOperator kind op) :
    kind.IsOperator := ⟨op, h.kind_eq.1⟩

theorem ProductOperator.isOperator {kind : TokenKind} {op : Operator}
    (h : ProductOperator kind op) : kind.IsOperator := ⟨op, h.kind_eq.1⟩

theorem isOperator_power {kind : TokenKind} (h : kind = .power) : kind.IsOperator := ⟨.power, h⟩

theorem SignToken.isOperator {kind : TokenKind} {sign : Sign} (h : SignToken kind sign) :
    kind.IsOperator := by
  cases h with
  | plus => exact ⟨.add, rfl⟩
  | minus => exact ⟨.subtract, rfl⟩

theorem not_cutShort_nil : ¬CutShort [] :=
  fun ⟨_, _, hmotion, _⟩ => nomatch hmotion

theorem unabridged_iff (h : ¬CutShort tokens) : Unabridged tokens ↔ NoneCutShort false tokens :=
  and_iff_right h

theorem not_cutShort_cons (h : t.kind ∉ [.name, .leftParen]) : ¬CutShort (t :: tokens) := by
  rintro ⟨operator, rest, hmotion, -⟩
  cases hmotion with
  | word hkind => simp [hkind] at h
  | parens hkind => simp [hkind] at h

/-- A key is no value. -/
theorem not_cutShort_key {equals : Token} (hname : t.kind = .name)
    (hequals : equals.kind = .equals) : ¬CutShort (t :: equals :: tokens) := by
  rintro ⟨operator, rest, hmotion, hoperator⟩
  cases hmotion with
  | word => exact hoperator.notMem (by simp [hequals])
  | parens hkind => simp [hkind] at hname

theorem noneCutShort_skip (h : t.kind ∉ [.comma, .equals, .newline]) :
    NoneCutShort false (t :: tokens) ↔ NoneCutShort false tokens := by
  have hopens : ¬t.OpensValue false := by
    rintro (hmem | ⟨hfirst, -⟩)
    · exact h (List.mem_append_left [TokenKind.newline] hmem)
    · exact Bool.false_ne_true hfirst
  have hnewline : t.kind ≠ .newline := fun heq => h (by simp [heq])
  simp [NoneCutShort, hopens, hnewline]

theorem noneCutShort_comment {first : Bool} (h : t.kind = .comment) :
    NoneCutShort first (t :: tokens) ↔ NoneCutShort false tokens := by
  simp [NoneCutShort, Token.OpensValue, h]

theorem noneCutShort_separator (h : t.kind ∈ [.comma, .equals]) :
    NoneCutShort false (t :: tokens) ↔ Unabridged tokens := by
  have hopens : t.OpensValue false := .inl h
  have hnewline : t.kind ≠ .newline := fun heq => by simp [heq] at h
  simp [NoneCutShort, Unabridged, hopens, hnewline]

theorem noneCutShort_first (h : t.kind ∈ [.name, .plus]) :
    NoneCutShort true (t :: tokens) ↔ Unabridged tokens := by
  have hopens : t.OpensValue true := .inr ⟨rfl, h⟩
  have hnewline : t.kind ≠ .newline := fun heq => by simp [heq] at h
  simp [NoneCutShort, Unabridged, hopens, hnewline]

theorem noneCutShort_newline {first : Bool} (h : t.kind = .newline) :
    NoneCutShort first (t :: tokens) ↔ NoneCutShort true tokens := by
  simp [NoneCutShort, Token.OpensValue, h]

/-- No value begins inside an action. -/
theorem DerivesAction.noneCutShort_iff {codes : String} (h : DerivesAction tokens rest codes) :
    NoneCutShort false tokens ↔ NoneCutShort false rest := by
  induction h with
  | join _ _ ihl ihr => exact ihl.trans ihr
  | braces hleft _ hright repeats ih =>
    rw [noneCutShort_skip (by simp [hleft]), ih, noneCutShort_skip (by simp [hright])]
    cases repeats with
    | nothing => rfl
    | count hkind => exact noneCutShort_skip (by simp [hkind])
  | brackets hleft _ hright ih | parens hleft _ hright ih =>
    rw [noneCutShort_skip (by simp [hleft]), ih, noneCutShort_skip (by simp [hright])]
  | codes hkind => exact noneCutShort_skip (by simp [hkind])

theorem noneCutShort_operator (h : t.kind.IsOperator) :
    NoneCutShort false (t :: tokens) ↔ NoneCutShort false tokens :=
  noneCutShort_skip fun hmem => h.notMem (List.mem_append_left _ hmem)

/-- No value begins inside an expression. -/
theorem DerivesExpr.noneCutShort_iff {tier : Tier} {e : Expr} (h : DerivesExpr tier tokens rest e) :
    NoneCutShort false tokens ↔ NoneCutShort false rest := by
  induction h with
  | sum _ hop _ ihl ihr => rw [ihl, noneCutShort_operator hop.isOperator, ihr]
  | product _ hop _ ihl ihr => rw [ihl, noneCutShort_operator hop.isOperator, ihr]
  | power _ hop _ ihl ihr => rw [ihl, noneCutShort_operator (isOperator_power hop), ihr]
  | ofProduct _ ih | ofSigned _ ih | ofPower _ ih | ofOperand _ ih => exact ih
  | signed hsign _ ih => rw [noneCutShort_operator hsign.isOperator, ih]
  | parens hleft _ hright ih =>
    rw [noneCutShort_skip (by simp [hleft]), ih, noneCutShort_skip (by simp [hright])]
  | number h | name h | string h => exact noneCutShort_skip (by simp [h])

/-! ## Values -/

section

variable {items : Nat → Except ScriptError (Option Token)} {pos stop : Nat}

theorem DerivesMotion.derivesAction (h : DerivesMotion tokens rest) :
    ∃ codes, DerivesAction tokens rest codes := by
  induction h with
  | word h hcodes => exact ⟨_, .codes h hcodes⟩
  | parens hleft _ hright ih =>
    obtain ⟨codes, ih⟩ := ih
    exact ⟨_, .parens hleft ih hright⟩

/-- An operator comes next. -/
def SeesOperator (items : Nat → Except ScriptError (Option Token)) (pos : Nat) : Prop :=
  Sees items pos TokenKind.IsOperator

theorem SeesOperator.ne {kind : TokenKind} (h : SeesOperator items pos) (hkind : ¬kind.IsOperator) :
    Sees items pos (· ≠ kind) :=
  Sees.imp h fun _ hop heq => hkind (heq ▸ hop)

theorem SeesOperator.actionEnds (h : SeesOperator items pos) : ActionEnds items pos :=
  Sees.imp h fun _ hkind => hkind.notMem_of_subset (by decide)

/-- What is cut short is read up to its operator. -/
theorem CutShort.matches_action (h : CutShort tokens) (hlists : Lists items pos tokens) :
    ∃ codes stop, pos < stop ∧ Rule.action.Matches items pos (some codes) stop ∧
      SeesOperator items stop := by
  obtain ⟨operator, rest, hmotion, hoperator⟩ := h
  obtain ⟨codes, haction⟩ := hmotion.derivesAction
  obtain ⟨stop, hlt, -, hrest, hmatches⟩ := haction.matches_action hlists
  have hsees : SeesOperator items stop := ⟨operator, hrest.1, hoperator⟩
  exact ⟨codes, stop, hlt, hmatches hsees.actionEnds, hsees⟩

/-- An expression that an action begins is a word of motion codes, or it is cut short. -/
theorem DerivesExpr.commits {tier : Tier} {e : Expr} (h : DerivesExpr tier tokens rest e)
    (hlists : Lists items pos tokens) : Rule.action.Matches items pos none pos ∨
      DerivesMotion tokens rest ∨ CutShort tokens := by
  -- an operand with an operator behind it
  have hgoes : ∀ {pos : Nat} {tokens mid : List Token} {operator : Token},
      operator.kind.IsOperator →
      (Rule.action.Matches items pos none pos ∨ DerivesMotion tokens (operator :: mid) ∨
        CutShort tokens) → ∀ rest, Rule.action.Matches items pos none pos ∨
          DerivesMotion tokens rest ∨ CutShort tokens := by
    rintro pos tokens mid operator hoperator (hnone | hmotion | hcut) rest
    · exact .inl hnone
    · exact .inr (.inr ⟨operator, mid, hmotion, hoperator⟩)
    · exact .inr (.inr hcut)
  induction h generalizing pos with
  | sum _ hop _ ih => exact hgoes hop.isOperator (ih hlists) _
  | product _ hop _ ih => exact hgoes hop.isOperator (ih hlists) _
  | power _ hop _ ih => exact hgoes (isOperator_power hop) (ih hlists) _
  | ofProduct _ ih | ofSigned _ ih | ofPower _ ih | ofOperand _ ih => exact ih hlists
  | signed hsign =>
    refine .inl (matches_action_none hlists.1 (hsign.isOperator.notMem_of_subset (by decide))
      fun hname => ?_)
    have hnot := hsign.isOperator.notMem
    simp [hname] at hnot
  | parens hleft _ hright ih =>
    rcases ih hlists.2 with hnone | hmotion | hcut
    · exact .inl (matches_action_none_paren hlists.1 hleft (.inl hnone))
    · exact .inr (.inl (.parens hleft hmotion hright))
    · obtain ⟨codes, stop, -, hmatches, hsees⟩ := hcut.matches_action hlists.2
      exact .inl (matches_action_none_paren hlists.1 hleft
        (.inr ⟨codes, stop, hmatches, hsees.ne fun hop => hop.notMem (by decide)⟩))
  | number h | string h =>
    exact .inl (matches_action_none hlists.1 (by simp [h]) (by simp [h]))
  | @name name _ h =>
    by_cases hcodes : IsMotionWord name.text
    · exact .inr (.inl (.word h hcodes))
    · exact .inl (matches_action_none hlists.1 (by simp [h]) fun _ => hcodes)

/-- How far the tokens before `rest` are read. Either up to `rest`, and no value before it is cut
short : then none is cut short in all the tokens (`whole`) if and only if none is from there on. Or
up to an operator, because a value is cut short. -/
inductive ReadsUpTo (items : Nat → Except ScriptError (Option Token)) (whole : Prop)
    (rest : List Token) (stop : Nat) : Prop
  | rest (hrest : Lists items stop rest) (hwhole : whole ↔ NoneCutShort false rest)
  | operator (hoperator : SeesOperator items stop) (hnot : ¬whole)

theorem ReadsUpTo.of_iff {whole whole' : Prop} (h : ReadsUpTo items whole rest stop)
    (hiff : whole' ↔ whole) : ReadsUpTo items whole' rest stop := by
  cases h with
  | rest hrest hwhole => exact .rest hrest (hiff.trans hwhole)
  | operator hoperator hnot => exact .operator hoperator fun hwhole => hnot (hiff.1 hwhole)

/-- A value that is derived is matched, up to its end, or up to an operator if it is cut short. -/
theorem DerivesValue.matches_value {v : Value} (h : DerivesValue tokens rest v)
    (hlists : Lists items pos tokens)
    (hends : ∀ {stop}, Lists items stop rest → ValueEnds items stop) :
    ∃ v' stop, pos < stop ∧ Rule.value.Matches items pos (some v') stop ∧
      ReadsUpTo items (Unabridged tokens) rest stop := by
  by_cases hcut : CutShort tokens
  · obtain ⟨codes, stop, hlt, hmatches, hsees⟩ := hcut.matches_action hlists
    exact ⟨_, stop, hlt, matches_value_action hmatches, .operator hsees fun hwhole => hwhole.1 hcut⟩
  have hwhole : (NoneCutShort false tokens ↔ NoneCutShort false rest) →
      (Unabridged tokens ↔ NoneCutShort false rest) := fun hiff =>
    ⟨fun hwhole => hiff.1 hwhole.2, fun hmore => ⟨hcut, hiff.2 hmore⟩⟩
  have haction : ∀ {codes : String}, DerivesAction tokens rest codes → ∃ v' stop, pos < stop ∧
      Rule.value.Matches items pos (some v') stop ∧
      ReadsUpTo items (Unabridged tokens) rest stop := fun haction => by
    obtain ⟨stop, hlt, -, hrest, hmatches⟩ := haction.matches_action hlists
    exact ⟨_, stop, hlt, matches_value_action (hmatches (hends hrest).actionEnds),
      .rest hrest (hwhole haction.noneCutShort_iff)⟩
  cases h with
  | action h => exact haction h
  | expr h =>
    rcases h.commits hlists with hnone | hmotion | hshort
    · obtain ⟨stop, hlt, -, hrest, hreads⟩ := h.reads hlists
      exact ⟨_, stop, hlt, matches_value_expr hnone (hreads.matches_sum (hends hrest).sumEnds),
        .rest hrest (hwhole h.noneCutShort_iff)⟩
    · obtain ⟨codes, hcodes⟩ := hmotion.derivesAction
      exact haction hcodes
    · exact absurd hshort hcut

end

end OpticScript
