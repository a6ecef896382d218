import OpticScript.Grammar
import OpticScript.Proofs.Grammar.Derivation
import OpticScript.Proofs.Keywords
import OpticScript.Proofs.Packrat.Soundness

/-!
# Matches of script rules are derivations

A match of a rule of the script grammar on a list of tokens is a derivation of the tokens
between its positions, and the result is the abstract syntax of the derivation
(`evaluate_derives`). It is enough that each branch of a rule is one rule of the grammar
when what it calls is derived.
-/

namespace OpticScript

open Packrat

/-- The result of a line is the line in abstract syntax. -/
def LineForm.Gives : LineForm → Line → Prop
  | blank, line => line = .blank
  | command directive args pairs, line =>
    line = .statement (.primary { directive, parameters := parametersOf args pairs })
  | surface args pairs, line =>
    ∃ marker, line = .statement (.secondary (parametersOf args pairs) marker)

/-- What a match of a rule means on a list of tokens. -/
def scriptMeaning (tokens : List Token) (r : Rule) (start stop : Nat) (a : r.Result) : Prop :=
  match r, a with
  | .token kind, t => tokens.drop start = t :: tokens.drop stop ∧ t.kind = kind
  | .scriptLine, line =>
    ∃ form, DerivesLine (tokens.drop start) (tokens.drop stop) form ∧ form.Gives line
  | .command, statement =>
    ∃ form, DerivesCommand (tokens.drop start) (tokens.drop stop) form ∧
      form.Gives (.statement statement)
  | .commandParams, parameters =>
    ∃ args pairs, DerivesParams (tokens.drop start) (tokens.drop stop) args pairs ∧
      parameters = parametersOf args pairs
  | .valueList, values => DerivesValueList (tokens.drop start) (tokens.drop stop) values
  | .nextValue, v => DerivesMoreValues (tokens.drop start) (tokens.drop stop) [v]
  | .keywordList, keywords =>
    ∃ pairs, DerivesPairs (tokens.drop start) (tokens.drop stop) pairs ∧ keywords = .ofList pairs
  | .positionalValue, v => DerivesPositional (tokens.drop start) (tokens.drop stop) v
  | .value, v => DerivesValue (tokens.drop start) (tokens.drop stop) v
  | .keyValue, keywords =>
    ∃ pairs, DerivesPairs (tokens.drop start) (tokens.drop stop) pairs ∧ keywords = .ofList pairs
  | .action, codes => DerivesAction (tokens.drop start) (tokens.drop stop) codes
  | .sum, e => DerivesExpr .sum (tokens.drop start) (tokens.drop stop) e
  | .product, e => DerivesExpr .product (tokens.drop start) (tokens.drop stop) e
  | .signed, e => DerivesExpr .signed (tokens.drop start) (tokens.drop stop) e
  | .power, e => DerivesExpr .power (tokens.drop start) (tokens.drop stop) e
  | .operand, e => DerivesExpr .operand (tokens.drop start) (tokens.drop stop) e
  | .brokenNumber, _ => True

section

variable {tokens : List Token} {items : Nat → Except ScriptError (Option Token)}

attribute [local simp] Phrase.tokenBranches Phrase.scriptLine Phrase.command
  Phrase.commandParams Phrase.valueList Phrase.nextValue Phrase.keywordList
  Phrase.positionalValue Phrase.value Phrase.keyValue Phrase.action Phrase.sum Phrase.product
  Phrase.signed Phrase.power Phrase.operand Phrase.brokenNumber Phrase.binary Phrase.bracketed
  Phrase.rule Phrase.token Phrase.optional Phrase.optionalToken Phrase.many Phrase.someTokens
  Phrase.trailingComma Phrase.notBefore Bind.bind Pure.pure Branch.bind

/-- Each branch of the rule ends with a derivation. -/
abbrev RuleYields (tokens : List Token) (items : Nat → Except ScriptError (Option Token))
    (r : Rule) : Prop :=
  ∀ branch ∈ Phrase.branches r, ∀ pos, branch.Yields items (scriptMeaning tokens)
    (fun a stop => scriptMeaning tokens r pos stop a) pos

theorem drop_eq_cons {i : Nat} {t : Token} (h : tokens[i]? = some t) :
    tokens.drop i = t :: tokens.drop (i + 1) := by
  obtain ⟨hi, rfl⟩ := List.getElem?_eq_some_iff.1 h
  exact List.drop_eq_getElem_cons hi

theorem derivesCommas_of_chain {start stop : Nat} {commas : List Token}
    (h : Chain (scriptMeaning tokens (.token .comma)) start stop commas) (hne : commas ≠ []) :
    DerivesCommas (tokens.drop start) (tokens.drop stop) := by
  induction h with
  | nil => exact absurd rfl hne
  | @cons start mid stop comma others head tail ih =>
    obtain ⟨hdrop, hkind⟩ := head
    rw [hdrop]
    cases tail with
    | nil => exact .one hkind
    | cons head' tail' => exact .more hkind (ih (by simp))

theorem derivesMoreValues_append {start mid stop : List Token} {v : Value} {vs : List Value}
    (head : DerivesMoreValues start mid [v]) (tail : DerivesMoreValues mid stop vs) :
    DerivesMoreValues start stop (v :: vs) := by
  cases head with
  | more hcomma value nothing =>
    cases nothing
    exact .more hcomma value tail

theorem derivesMoreValues_of_chain {start stop : Nat} {vs : List Value}
    (h : Chain (scriptMeaning tokens .nextValue) start stop vs) :
    DerivesMoreValues (tokens.drop start) (tokens.drop stop) vs := by
  induction h with
  | nil => exact .nothing _
  | cons head _ ih => exact derivesMoreValues_append head ih

theorem derivesTrailing_comma {start stop : Nat} {comma next : Token}
    (hdrop : tokens.drop start = comma :: tokens.drop stop) (hcomma : comma.kind = .comma)
    (hnext : tokens[stop]? = some next) (hkind : next.kind = .newline ∨ next.kind = .comment) :
    DerivesTrailing (tokens.drop start) (tokens.drop stop) := by
  rw [hdrop, drop_eq_cons hnext]
  exact .comma hcomma hkind

theorem isMotionWord_of_isMotion {word : String} (h : Phrase.isMotion word = true) :
    IsMotionWord word := by
  simpa [Phrase.isMotion, Phrase.motionCodes, IsMotionWord] using h

theorem derivesCount_of_repeatCount {start stop : Nat} {number : Token} {count : String}
    (hdrop : tokens.drop start = number :: tokens.drop stop) (hkind : number.kind = .number)
    (hcount : Phrase.repeatCount? (some number) = some count) :
    DerivesCount (tokens.drop start) (tokens.drop stop) count := by
  rw [hdrop]
  unfold Phrase.repeatCount? at hcount
  dsimp only at hcount
  split at hcount
  · rename_i value hvalue
    obtain rfl := Option.some.inj hcount
    exact .count hkind hvalue
  · simp at hcount

theorem isContents_contents (t : Token) : IsContents t (Phrase.contents t) := by
  unfold IsContents Phrase.contents
  cases h : t.literal <;> simp

theorem token_yields (hitems : ∀ i, items i = .ok tokens[i]?) (kind : TokenKind) :
    RuleYields tokens items (.token kind) := by
  simp [RuleYields, Phrase.branches, Branch.Yields, scriptMeaning, hitems]
  exact fun pos t ht hkind => ⟨drop_eq_cons ht, hkind⟩

theorem scriptLine_yields (hitems : ∀ i, items i = .ok tokens[i]?) :
    RuleYields tokens items .scriptLine := by
  simp [RuleYields, Phrase.branches, Branch.Yields, scriptMeaning, hitems]
  refine ⟨fun pos statement stop form hcommand hgives => ⟨?_, ?_⟩, fun pos => ⟨?_, ?_⟩⟩
  · intro newline stop' hdrop hkind
    exact ⟨form, .command hcommand (hdrop ▸ .nothing _) hkind, hgives⟩
  · intro comment stop' hdrop hcomment newline stop'' hdrop' hkind
    rw [hdrop] at hcommand
    exact ⟨form, .command hcommand (hdrop' ▸ .comment hcomment) hkind, hgives⟩
  · intro newline stop hdrop hkind
    exact ⟨.blank, .blank (hdrop ▸ .nothing _) hkind, rfl⟩
  · intro comment stop hdrop hcomment newline stop' hdrop' hkind
    rw [hdrop]
    exact ⟨.blank, .blank (hdrop' ▸ .comment hcomment) hkind, rfl⟩

theorem command_yields : RuleYields tokens items .command := by
  simp [RuleYields, Phrase.branches, Branch.Yields, scriptMeaning]
  refine ⟨?_, ?_⟩
  · intro pos name stop hdrop hname parameters stop' args pairs hparams hparameters
    rw [hdrop, hparameters]
    exact ⟨_, .command hname hparams, rfl⟩
  · intro pos plus stop hdrop hplus parameters stop' args pairs hparams hparameters
    rw [hdrop, hparameters]
    exact ⟨_, .surface hplus hparams, plus, rfl⟩

theorem commandParams_yields (hitems : ∀ i, items i = .ok tokens[i]?) :
    RuleYields tokens items .commandParams := by
  simp [RuleYields, Phrase.branches, Branch.Yields, scriptMeaning, hitems]
  refine ⟨?_, ?_, ?_⟩
  · intro pos args stop hargs comma stop' hdrop hcomma keywords last pairs hpairs hkeywords
    rw [hdrop] at hargs
    rw [hkeywords]
    refine ⟨⟨args, pairs, .both hargs hcomma hpairs (.nothing _), rfl⟩, ?_⟩
    intro comma' last' hdrop' hcomma' next hnext hkind
    exact ⟨args, pairs, .both hargs hcomma hpairs
      (derivesTrailing_comma hdrop' hcomma' hnext hkind), rfl⟩
  · intro pos args stop hargs
    refine ⟨⟨args, [], .values hargs (.nothing _), rfl⟩, ?_⟩
    intro comma stop' hdrop hcomma next hnext hkind
    exact ⟨args, [], .values hargs (derivesTrailing_comma hdrop hcomma hnext hkind), rfl⟩
  · intro pos keywords stop pairs hpairs hkeywords
    rw [hkeywords]
    refine ⟨⟨[], pairs, .keywords hpairs (.nothing _), rfl⟩, ?_⟩
    intro comma stop' hdrop hcomma next hnext hkind
    exact ⟨[], pairs, .keywords hpairs (derivesTrailing_comma hdrop hcomma hnext hkind), rfl⟩

theorem valueList_yields : RuleYields tokens items .valueList := by
  simp [RuleYields, Phrase.branches, Branch.Yields, scriptMeaning]
  intro pos first stop hfirst others stop' hothers
  exact .values hfirst (derivesMoreValues_of_chain hothers)

theorem nextValue_yields : RuleYields tokens items .nextValue := by
  simp [RuleYields, Phrase.branches, Branch.Yields, scriptMeaning]
  intro pos comma stop hdrop hcomma v stop' hvalue
  rw [hdrop]
  exact .more hcomma hvalue (.nothing _)

theorem keywordList_yields : RuleYields tokens items .keywordList := by
  simp [RuleYields, Phrase.branches, Branch.Yields, scriptMeaning]
  intro pos left stop ps hps hleft commas stop' hcommas hne right stop'' qs hqs hright
  rw [hleft, hright]
  exact ⟨ps ++ qs, .join hps (derivesCommas_of_chain hcommas hne) hqs,
    (Keywords.ofList_append ps qs).symm⟩

theorem positionalValue_yields (hitems : ∀ i, items i = .ok tokens[i]?) :
    RuleYields tokens items .positionalValue := by
  simp [RuleYields, Phrase.branches, Branch.Yields, scriptMeaning, hitems]
  intro pos v stop hvalue next hnext hkind
  rw [drop_eq_cons hnext] at hvalue ⊢
  exact .value hvalue hkind

theorem value_yields : RuleYields tokens items .value := by
  simp [RuleYields, Phrase.branches, Branch.Yields, scriptMeaning]
  exact ⟨fun _ _ _ => .action, fun _ _ _ => .expr⟩

theorem keyValue_yields (hitems : ∀ i, items i = .ok tokens[i]?) :
    RuleYields tokens items .keyValue := by
  simp [RuleYields, Phrase.branches, Branch.Yields, scriptMeaning, hitems]
  intro pos name stop hdrop hname equals stop' hdrop' hequals v stop'' hvalue
  rw [hdrop, hdrop']
  exact ⟨_, .pair hname hequals hvalue, rfl⟩

theorem action_yields (hitems : ∀ i, items i = .ok tokens[i]?) :
    RuleYields tokens items .action := by
  simp [RuleYields, Phrase.branches, Branch.Yields, scriptMeaning, hitems]
  refine ⟨fun _ _ _ hfirst _ _ hsecond => .join hfirst hsecond, ?_, ?_, ?_, ?_⟩
  · intro pos left stop hdrop hleft inner stop' hinner right stop'' hdrop' hright
    rw [hdrop]
    rw [hdrop'] at hinner
    refine ⟨?_, ?_⟩
    · intro count hcount
      obtain rfl : "" = count := Option.some.inj hcount
      exact .braces hleft hinner hright (.nothing _)
    · intro number last hdrop'' hnumber count hcount
      exact .braces hleft hinner hright (derivesCount_of_repeatCount hdrop'' hnumber hcount)
  · intro pos left stop hdrop hleft inner stop' hinner right stop'' hdrop' hright
    rw [hdrop]
    exact .brackets hleft (hdrop' ▸ hinner) hright
  · intro pos left stop hdrop hleft inner stop' hinner right stop'' hdrop' hright
    rw [hdrop]
    exact .parens hleft (hdrop' ▸ hinner) hright
  · intro pos word stop hdrop hword hmotion
    rw [hdrop]
    exact .codes hword (isMotionWord_of_isMotion hmotion)

theorem sum_yields : RuleYields tokens items .sum := by
  simp [RuleYields, Phrase.branches, Branch.Yields, scriptMeaning]
  refine ⟨?_, ?_, fun _ _ _ => .ofProduct⟩
  · intro pos l stop hleft operator stop' hdrop hkind r stop'' hright
    exact .sum (hdrop ▸ hleft) (hkind ▸ .plus) hright
  · intro pos l stop hleft operator stop' hdrop hkind r stop'' hright
    exact .sum (hdrop ▸ hleft) (hkind ▸ .minus) hright

theorem product_yields : RuleYields tokens items .product := by
  simp [RuleYields, Phrase.branches, Branch.Yields, scriptMeaning]
  refine ⟨?_, ?_, ?_, fun _ _ _ => .ofSigned⟩
  · intro pos l stop hleft operator stop' hdrop hkind r stop'' hright
    exact .product (hdrop ▸ hleft) (hkind ▸ .times) hright
  · intro pos l stop hleft operator stop' hdrop hkind r stop'' hright
    exact .product (hdrop ▸ hleft) (hkind ▸ .divide) hright
  · intro pos l stop hleft operator stop' hdrop hkind r stop'' hright
    exact .product (hdrop ▸ hleft) (hkind ▸ .floorDivide) hright

theorem signed_yields : RuleYields tokens items .signed := by
  simp [RuleYields, Phrase.branches, Branch.Yields, scriptMeaning]
  refine ⟨?_, ?_, fun _ _ _ => .ofPower⟩
  · intro pos sign stop hdrop hkind e stop' hoperand
    exact hdrop ▸ .signed (hkind ▸ .plus) hoperand
  · intro pos sign stop hdrop hkind e stop' hoperand
    exact hdrop ▸ .signed (hkind ▸ .minus) hoperand

theorem power_yields : RuleYields tokens items .power := by
  simp [RuleYields, Phrase.branches, Branch.Yields, scriptMeaning]
  refine ⟨?_, fun _ _ _ => .ofOperand⟩
  intro pos l stop hleft operator stop' hdrop hkind r stop'' hright
  exact .power (hdrop ▸ hleft) hkind hright

theorem operand_yields (hitems : ∀ i, items i = .ok tokens[i]?) :
    RuleYields tokens items .operand := by
  simp [RuleYields, Phrase.branches, Branch.Yields, scriptMeaning, hitems]
  refine ⟨?_, ?_, ?_, ?_⟩
  · intro pos left stop hdrop hleft e stop' hinner right stop'' hdrop' hright
    exact hdrop ▸ .parens hleft (hdrop' ▸ hinner) hright
  · intro pos number stop hdrop hnumber next hnext hkind value hvalue
    rw [hdrop, drop_eq_cons hnext]
    exact .number hnumber hkind hvalue
  · intro pos name stop hdrop hname
    exact hdrop ▸ .name hname
  · intro pos string stop hdrop hstring
    exact hdrop ▸ .string hstring (isContents_contents string)

theorem brokenNumber_yields : RuleYields tokens items .brokenNumber := by
  simp [RuleYields, Phrase.branches, Branch.Yields, scriptMeaning]

/-- Each branch of a rule is one rule of the grammar. -/
theorem ruleYields (hitems : ∀ i, items i = .ok tokens[i]?) (r : Rule) :
    RuleYields tokens items r := by
  cases r with
  | token kind => exact token_yields hitems kind
  | scriptLine => exact scriptLine_yields hitems
  | command => exact command_yields
  | commandParams => exact commandParams_yields hitems
  | valueList => exact valueList_yields
  | nextValue => exact nextValue_yields
  | keywordList => exact keywordList_yields
  | positionalValue => exact positionalValue_yields hitems
  | value => exact value_yields
  | keyValue => exact keyValue_yields hitems
  | action => exact action_yields hitems
  | sum => exact sum_yields
  | product => exact product_yields
  | signed => exact signed_yields
  | power => exact power_yields
  | operand => exact operand_yields hitems
  | brokenNumber => exact brokenNumber_yields

end

/-- A match of a rule on a list of tokens is a derivation. -/
theorem evaluate_derives {tokens : List Token} {items : Nat → Except ScriptError (Option Token)}
    (hitems : ∀ i, items i = .ok tokens[i]?) (fuel : Nat) (r : Rule) :
    Means (scriptMeaning tokens r) (evaluate scriptGrammar items fuel r) :=
  evaluate_means (fun _ => rfl) (ruleYields hitems) fuel r

end OpticScript
