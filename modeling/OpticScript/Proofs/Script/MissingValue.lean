import OpticScript.Proofs.Grammar.Completeness
import OpticScript.Proofs.Lexer.Scanned
import OpticScript.Proofs.Lexer.Spelling
import OpticScript.Proofs.Packrat.Complaints
import OpticScript.Proofs.Parser.Blame

/-!
# Missing values

A key and an equals sign are an error of the grammar wherever the rule of values does not match
behind them (`LacksValue`), whether nothing is there or something that is no value as a whole. So
behind an equals sign that is blamed for a missing value no value begins that ends where one may
(`Lexer.BeginsNoValue`, `Script.ofText_missingValue`). A name and a string are values already, and
so is a number, unless another one comes behind it : two numbers with a blank between them are not
missing, and are called so all the same.
-/

namespace OpticScript

open Packrat Packrat.Outcome Packrat.Branch

/-! ## Where values are missed -/

/-- There are a key and this equals sign, and the rule of values does not match behind them. -/
structure LacksValue (items : Nat → Except ScriptError (Option Token)) (n : Nat) (equals : Token) :
    Prop where
  key : Sees items n (· = .name)
  item_eq : items (n + 1) = .ok (some equals)
  equals_kind : equals.kind = .equals
  none : ∃ stop, Rule.value.Matches items (n + 2) none stop

section

variable {items : Nat → Except ScriptError (Option Token)} {pos stop n : Nat} {t equals : Token}

/-- What the complaints of the grammar depend on : which token a rule of tokens has taken, and what
a broken number is blamed for. -/
def complaintMeaning (items : Nat → Except ScriptError (Option Token)) (r : Rule) (start stop : Nat)
    (a : r.Result) : Prop :=
  match r, a with
  | .token kind, t => items start = .ok (some t) ∧ t.kind = kind ∧ stop = start + 1
  | .brokenNumber, blame => blame.cause ≠ .missingValue
  | _, _ => True

theorem complaintMeaning_yields (r : Rule) : ∀ branch ∈ Phrase.branches r, ∀ pos,
    branch.Yields items (complaintMeaning items) (fun a stop => complaintMeaning items r pos stop a)
      pos := by
  cases r with
  | token kind =>
    simp [Phrase.branches, Phrase.tokenBranches, Branch.Yields, complaintMeaning]
    exact fun pos t hitem hkind => ⟨hitem, hkind⟩
  | brokenNumber =>
    simp [Phrase.branches, Phrase.brokenNumber, Phrase.token, Bind.bind, Pure.pure, Branch.bind,
      Branch.Yields, complaintMeaning]
    intros
    split <;> simp
  | _ => exact fun branch _ pos => branch.yields_of_forall (fun _ _ => trivial) pos

theorem Rule.Matches.complaintMeaning {r : Rule} {a : r.Result}
    (h : r.Matches items pos (some a) stop) : OpticScript.complaintMeaning items r pos stop a := by
  obtain ⟨fuel, hanswer, hstop⟩ := h.exists
  have hmeans := evaluate_means (fun _ => rfl) complaintMeaning_yields fuel r pos _ hanswer a rfl
  rwa [hstop] at hmeans

section

attribute [local simp] Phrase.tokenBranches Phrase.scriptLine Phrase.command
  Phrase.commandParams Phrase.valueList Phrase.nextValue Phrase.keywordList
  Phrase.positionalValue Phrase.value Phrase.keyValue Phrase.action Phrase.sum Phrase.product
  Phrase.signed Phrase.power Phrase.operand Phrase.brokenNumber Phrase.binary Phrase.bracketed
  Phrase.rule Phrase.token Phrase.optional Phrase.optionalToken Phrase.many Phrase.someTokens
  Phrase.trailingComma Phrase.notBefore Bind.bind Pure.pure Branch.bind

/-- A value is missed behind an equals sign only. -/
theorem branch_complains (r : Rule) : ∀ branch ∈ Phrase.branches r, ∀ pos,
    branch.Complains items (Answers scriptGrammar items)
      (fun blame => blame.cause = .missingValue → ∃ n, LacksValue items n blame.token) pos := by
  cases r with
  | keyValue =>
    simp [Phrase.branches, Branch.Complains, Answers]
    intro pos name mid hname equals next hequals stop hvalue
    obtain ⟨hkey, hkind, rfl⟩ := Rule.Matches.complaintMeaning (hname (by decide))
    obtain ⟨hitem, hkind', rfl⟩ := Rule.Matches.complaintMeaning (hequals (by decide))
    exact ⟨pos, ⟨name, hkey, hkind⟩, hitem, hkind', stop, hvalue (by decide)⟩
  | operand =>
    simp [Phrase.branches, Branch.Complains, Answers]
    intro pos blame stop hbroken hcause
    exact absurd hcause (Rule.Matches.complaintMeaning (hbroken (by decide)))
  | _ => simp [Phrase.branches, Branch.Complains]

end

/-! ## What is missed -/

theorem Rule.Matches.lt_stop {r : Rule} {a : r.Result} (h : r.Matches items pos (some a) stop) :
    pos < stop := by
  obtain ⟨fuel, hanswer, rfl⟩ := h.exists
  exact ((scriptRanking true).evaluate_advances items fuel r pos).lt_stop rfl _ hanswer rfl

/-- A rule does not match and match. -/
theorem Rule.Matches.not_none {r : Rule} {a : r.Result} {stop' : Nat}
    (h : r.Matches items pos (some a) stop) : ¬r.Matches items pos none stop' := by
  intro hnone
  obtain ⟨fuel, ⟨hsome, -⟩, hnone, -⟩ := (h.and hnone).exists
  simp [hsome] at hnone

/-- Where there is no value there is no operand. -/
theorem matches_operand_none (h : Rule.value.Matches items pos none stop) :
    ∃ stop', Rule.operand.Matches items pos none stop' := by
  have hsum :
      (Branch.call .sum fun e => .done (.expr e) : Phrase Value).Fails scriptGrammar items pos :=
    h.branches_fail (by decide) _ (.tail _ (.head _))
  obtain ⟨_, hsum⟩ := hsum.last
  obtain ⟨_, hproduct⟩ := isChainRule_sum.base_none Rule.Matches.lt_stop hsum
  obtain ⟨_, hsigned⟩ := isChainRule_product.base_none Rule.Matches.lt_stop hproduct
  have hpower : (Branch.call .power fun e => .done e : Phrase Expr).Fails scriptGrammar items pos :=
    hsigned.branches_fail (by decide) _ (.tail _ (.tail _ (.head _)))
  obtain ⟨_, hpower⟩ := hpower.last
  have hoperand :
      (Branch.call .operand fun e => .done e : Phrase Expr).Fails scriptGrammar items pos :=
    hpower.branches_fail (by decide) _ (.tail _ (.head _))
  exact hoperand.last

/-- Another token comes where the rule of a token does not match. -/
theorem sees_of_token_none {kind : TokenKind} (hitem : items pos = .ok (some t))
    (h : (Rule.token kind).Matches items pos none stop) : t.kind ≠ kind :=
  fun hkind => (matches_token hitem hkind).not_none h

/-- Where two numbers are no broken number they do not adjoin. -/
theorem not_adjoins_of_broken_none {second : Token} (hitem : items pos = .ok (some t))
    (hkind : t.kind = .number) (hsecond : items (pos + 1) = .ok (some second))
    (hkind' : second.kind = .number) (h : Rule.brokenNumber.Matches items pos none stop) :
    t.adjoins second = false := by
  refine Bool.eq_false_iff.2 fun hadjoins => ?_
  have hbranch : (Branch.call (.token .number) fun first => .call (.token .number) fun second =>
      (Branch.require (first.adjoins second)).bind fun _ => .done
        (if first.bothIntegers second then { cause := .leadingZeros, token := first }
          else { cause := .invalidNumberForm, token := second }) : Phrase Blame).Fails
      scriptGrammar items pos := h.branches_fail (by decide) _ (.head _)
  rcases hbranch.call with ⟨_, hnone⟩ | ⟨first, mid, hfirst, hmore⟩
  · exact sees_of_token_none hitem hnone hkind
  obtain ⟨hitem', -, rfl⟩ := Rule.Matches.complaintMeaning hfirst
  obtain rfl : t = first := by simpa [hitem] using hitem'
  rcases hmore.call with ⟨_, hnone⟩ | ⟨number, next, hnumber, hlast⟩
  · exact sees_of_token_none hsecond hnone hkind'
  obtain ⟨hsecond', -, -⟩ := Rule.Matches.complaintMeaning hnumber
  obtain rfl : second = number := by simpa [hsecond] using hsecond'
  exact absurd (hlast.require hadjoins) (not_fails_done _)

/-- Where no operand begins with a number, another number comes behind it. -/
theorem second_number (hsome : ∀ i, items i ≠ .ok none) (hitem : items pos = .ok (some t))
    (hkind : t.kind = .number) {value : Number} (hvalue : t.number? = some value)
    (h : Rule.operand.Matches items pos none stop) : ∃ second, items (pos + 1) = .ok (some second) ∧
      second.kind = .number ∧ t.adjoins second = false := by
  have hnumber : (Branch.call (.token .number) fun number => .look fun next =>
      (Branch.require (next.kind ≠ .number)).bind fun _ =>
        (Branch.ofOption number.number?).bind fun value =>
          .done (.number value) : Phrase Expr).Fails
      scriptGrammar items pos := h.branches_fail (by decide) _ (.tail _ (.head _))
  have hbroken : (Branch.call .brokenNumber fun blame => .raise blame : Phrase Expr).Fails
      scriptGrammar items pos :=
    h.branches_fail (by decide) _ (.tail _ (.tail _ (.tail _ (.tail _ (.head _)))))
  rcases hnumber.call with ⟨_, hnone⟩ | ⟨number, mid, hmatches, hmore⟩
  · exact absurd hkind (sees_of_token_none hitem hnone)
  obtain ⟨hitem', -, rfl⟩ := Rule.Matches.complaintMeaning hmatches
  obtain rfl : t = number := by simpa [hitem] using hitem'
  rcases hmore.look with hnone | ⟨second, hsecond, hlast⟩
  · exact absurd hnone (hsome _)
  have hkind' : second.kind = .number := by
    by_contra hne
    exact not_fails_done _ ((hlast.require (by simpa using hne)).ofOption hvalue)
  refine ⟨second, hsecond, hkind', ?_⟩
  rcases hbroken.call with ⟨_, hnone⟩ | ⟨blame, mid, -, hraise⟩
  · exact not_adjoins_of_broken_none hitem hkind hsecond hkind' hnone
  · exact absurd hraise (not_fails_raise _)

/-- There is a token where no operand is, and it is neither a name nor a string. -/
theorem exists_token_of_operand_none (hsome : ∀ i, items i ≠ .ok none)
    (h : Rule.operand.Matches items pos none stop) :
    ∃ t, items pos = .ok (some t) ∧ t.kind ∉ [.name, .string] := by
  have hname : (Branch.call (.token .name) fun name => .done (.name name.text) : Phrase Expr).Fails
      scriptGrammar items pos := h.branches_fail (by decide) _ (.tail _ (.tail _ (.head _)))
  have hstring :
      (Branch.call (.token .string) fun string => .done (.text (Phrase.contents string)) :
      Phrase Expr).Fails scriptGrammar items pos :=
    h.branches_fail (by decide) _ (.tail _ (.tail _ (.tail _ (.head _))))
  obtain ⟨_, hname⟩ := hname.last
  obtain ⟨_, hstring⟩ := hstring.last
  have htake : (Branch.take (·.kind = .name) .done : Phrase Token).Fails scriptGrammar items pos :=
    hname.branches_fail (by decide) _ (.head _)
  rcases htake.take with hnone | ⟨t, hitem, -⟩
  · exact absurd hnone (hsome pos)
  · exact ⟨t, hitem, by simp [sees_of_token_none hitem hname, sees_of_token_none hitem hstring]⟩

theorem Lists.drop {tokens : List Token} (h : Lists items pos tokens) (n : Nat) :
    Lists items (pos + n) (tokens.drop n) := by
  induction n generalizing pos tokens with
  | zero => exact h
  | succ n ih =>
    cases tokens with
    | nil => trivial
    | cons t tokens =>
      rw [List.drop_succ_cons, Nat.add_comm n 1, ← Nat.add_assoc]
      exact ih h.2

end

/-- A number carries its value. -/
theorem Token.IsScanned.number {t : Token} (h : t.IsScanned) (hkind : t.kind = .number) :
    ∃ value, t.number? = some value := by
  have hliteral := h.literal
  rw [hkind, Lexeme.literal?, Option.map_eq_some_iff] at hliteral
  obtain ⟨value, -, hliteral⟩ := hliteral
  exact ⟨value, by rw [number?, ← hliteral]⟩

/-- This token is there at a position, and no value that is derived from there on ends where a value
may end. Neither a name nor a string is there, and no number but one that another number comes
behind, with a blank between them. -/
structure Lexer.BeginsNoValue (lexer : Lexer) (pos : Nat) (t : Token) : Prop where
  item_eq : lexer.item pos = .ok (some t)
  not_derives : ∀ {v : Value} {next : Token} {rest : List Token},
    DerivesValue (lexer.toEnd.tokens.drop pos) (next :: rest) v →
      next.kind ∉ [.comma, .equals, .newline, .comment]
  kind_notMem : t.kind ∉ [.name, .string]
  numbers : t.kind = .number → ∃ second, lexer.item (pos + 1) = .ok (some second) ∧
    second.kind = .number ∧ t.adjoins second = false

/-- No value that is derived ends where it may if the rule of values does not match. -/
theorem Lexer.not_derives_of_none {lexer : Lexer} {pos stop : Nat}
    (hnone : Rule.value.Matches lexer.item pos none stop) {v : Value} {next : Token}
    {rest : List Token} (h : DerivesValue (lexer.toEnd.tokens.drop pos) (next :: rest) v) :
    next.kind ∉ [.comma, .equals, .newline, .comment] := by
  intro hkind
  have hlists : Lists lexer.item pos (lexer.toEnd.tokens.drop pos) := by
    simpa using lexer.lists_toEnd.drop pos
  obtain ⟨v', stop', -, hmatches, -⟩ := h.matches_value hlists fun hrest => ⟨next, hrest.1, hkind⟩
  exact hmatches.not_none hnone

/-! ## Texts with a missing value -/

theorem Cause.Grammatical.not_lexical {cause : Cause} (h : cause.Grammatical) : ¬cause.Lexical := by
  intro hlexical
  cases h <;> cases hlexical

theorem Parser.addLine_error {script : Script} {line : Line} {blame : Blame}
    (h : addLine script line = .error blame) : blame.cause = .surfaceWithoutCommand := by
  unfold addLine at h
  split at h
  · simp at h
  · simp at h
  · split at h
    · simp at h
    · obtain rfl := Except.error.inj h
      rfl

/-- A complaint of the lines is one of a line, or there is no command to put a surface on. -/
theorem linesOutcome_complains {line : Nat → Outcome Blame ScriptError (Option Line)}
    {Q : Blame → Prop} (hline : ∀ pos, (line pos).Complains Q)
    (hsurface : ∀ blame : Blame, blame.cause = .surfaceWithoutCommand → Q blame) :
    ∀ rounds script pos, (linesOutcome line rounds script pos).Complains Q
  | 0, _, _ => by simp [Outcome.Complains, linesOutcome, Outcome.fail]
  | rounds + 1, script, pos => by
    refine (hline pos).andThen fun next _ => ?_
    cases next with
    | none => exact complains_here _ _
    | some next =>
      dsimp only
      split
      · exact linesOutcome_complains hline hsurface rounds _ _
      · rename_i blame hblame
        rintro c hc
        obtain rfl : blame = c := by simpa [Outcome.fail] using hc
        exact hsurface blame (Parser.addLine_error hblame)

/-- An error that the grammar gives is a complaint of the lines. -/
theorem Script.ofSource_grammatical {source : Source} {d : Diagnostic} {fuel : Nat}
    (h : Script.ofSource source = .error (.fatal (.located d))) (hcause : d.cause.Grammatical)
    (hregular : (Lexer.ofSource source).Regular)
    (hfuel : Parser.fuel (.ofLexer (.ofSource source)) ≤ fuel) :
    let lexer := Lexer.ofSource source
    let o := linesOutcome (lexer.comesTo fuel .scriptLine) fuel .empty 0
    ∃ blame, o.answer = .error (.complaint blame) ∧
      d = (lexer.after o.reach).blame blame.cause blame.token := by
  intro lexer o
  obtain ⟨wall, hwall, hends⟩ := lexer.exists_endsAt
  have hfinishes : o.Finishes :=
    Lexer.lines_finish hends.wall (Nat.zero_le wall) ((fuelFor_le_fuel_ofLexer hwall).trans hfuel)
  have hitem : ∀ {lexer' : Lexer} {n}, lexer'.Regular → lexer'.item n ≠ .error (.located d) := by
    intro lexer' n hregular' he
    obtain ⟨d', heq, hlexical⟩ := hregular'.item_lexical he
    obtain rfl := ScriptError.located.inj heq
    exact hcause.not_lexical hlexical
  rw [ofSource_eq_conclusion hfuel] at h
  rcases (Lexer.conclusion_eq_error_iff hfinishes).1 h with
    ⟨e, he, hd⟩ | ⟨blame, hblame, hd⟩ | ⟨script, -, ⟨e, he, hd⟩ | ⟨t, -, -, hd⟩⟩
  · obtain ⟨i, -, hi⟩ := Lexer.linesOutcome_item he
    obtain rfl := Halt.fatal.inj hd
    exact absurd hi (hitem hregular)
  · exact ⟨blame, hblame, by simpa using hd.symm⟩
  · obtain rfl := Halt.fatal.inj hd
    exact absurd he (hitem hregular)
  · -- a token that no rule fits is no matter of the grammar, and the lexer is none either
    unfold Lexer.rejection at hd
    split at hd
    · rename_i last hlast
      have hd := Halt.fatal.inj hd
      unfold Lexer.diagnosis at hd
      split at hd
      · rename_i e hfailure
        obtain ⟨wall', -, hends'⟩ :=
          ((Lexer.ofSource source).after (max o.reach (o.stop + 1))).exists_endsAt
        obtain rfl := hd
        exact absurd ((hends'.toEnd_eq.2.1 _).1 hfailure) (hitem (hregular.after _))
      · obtain rfl := ScriptError.located.inj hd
        have hunrecognized : Cause.unrecognized.Grammatical := hcause
        cases hunrecognized
    · simp at hd
    · rename_i e he
      obtain rfl := Halt.fatal.inj hd
      exact absurd he (hitem hregular)

/-- If a value is missing then a key and an equals sign, which is blamed, are there, and behind them
neither a name nor a string, nor a number but one that another number comes behind, with a blank
between them, nor any value up to a comma, an equals sign, a comment or the end of the line. -/
theorem Script.ofText_missingValue {name text : String} {tab : TabStop} {d : Diagnostic}
    (h : Script.ofSource (.ofText name text tab) = .error (.fatal (.located d)))
    (hcause : d.cause = .missingValue) :
    let lexer := Lexer.ofSource (.ofText name text tab)
    ∃ n m equals next, Sees lexer.item n (· = .name) ∧ lexer.item (n + 1) = .ok (some equals) ∧
      equals.kind = .equals ∧ d = (lexer.after m).blame .missingValue equals ∧
      lexer.BeginsNoValue (n + 2) next := by
  intro lexer
  obtain ⟨blame, hblame, rfl⟩ := Script.ofSource_grammatical h (hcause ▸ .missingValue)
    (Lexer.regular_ofSource name text tab) (Nat.le_refl _)
  have hmissing : blame.cause = .missingValue := hcause
  obtain ⟨n, hlacks⟩ := linesOutcome_complains (evaluate_complains branch_complains _ _)
    (fun blame hsurface hmissing => by simp [hsurface] at hmissing) _ _ _ blame hblame hmissing
  obtain ⟨_, hnone⟩ := hlacks.none
  obtain ⟨_, hoperand⟩ := matches_operand_none hnone
  obtain ⟨next, hitem, hkind⟩ := exists_token_of_operand_none Lexer.item_ne_none hoperand
  refine ⟨n, _, blame.token, next, hlacks.key, hlacks.item_eq, hlacks.equals_kind, by rw [hmissing],
    hitem, Lexer.not_derives_of_none hnone, hkind, fun hnumber => ?_⟩
  have hregular := (Lexer.regular_ofSource name text tab).after (n + 2)
  obtain hother | hother | hscanned := hregular.isScanned (Lexer.item_eq_ok_iff.1 hitem)
  · simp [hnumber] at hother
  · simp [hnumber] at hother
  obtain ⟨value, hvalue⟩ := hscanned.number hnumber
  exact second_number Lexer.item_ne_none hitem hnumber hvalue hoperand

/-- An equals sign at the end of a line. -/
theorem Script.ofText_missingValue_newline :
    let lexer := Lexer.ofSource (.ofText "<string>" "m1 x=")
    let d : Diagnostic :=
      { cause := .missingValue, source := "<string>", line := 1, startColumn := 5, endColumn := 6,
        text := "=", context := some "m1 x=" }
    Script.ofSource (.ofText "<string>" "m1 x=") = .error (.fatal (.located d)) ∧
      ∃ n m equals next, Sees lexer.item n (· = .name) ∧ lexer.item (n + 1) = .ok (some equals) ∧
        equals.kind = .equals ∧ d = (lexer.after m).blame .missingValue equals ∧
        lexer.BeginsNoValue (n + 2) next := by
  intro lexer d
  have h : Script.ofSource (.ofText "<string>" "m1 x=") = .error (.fatal (.located d)) := by
    rw [Script.ofSource_eq_verdict]
    decide +kernel
  exact ⟨h, Script.ofText_missingValue h rfl⟩

/-- Two numbers are no value, so that one is missing in front of them, while by position they are
no match. -/
theorem Script.ofText_missingValue_numbers :
    (Lexer.ofSource (.ofText "<string>" "m1 x=1 2")).toEnd.tokens.map Token.kind =
      [.name, .name, .equals, .number, .number, .newline, .endMarker] ∧
    Script.ofSource (.ofText "<string>" "m1 x=1 2") = .error (.fatal (.located
      { cause := .missingValue, source := "<string>", line := 1, startColumn := 5, endColumn := 6,
        text := "=", context := some "m1 x=1 2" })) ∧
    Script.ofSource (.ofText "<string>" "m1 1 2") = .error (.fatal (.located
      { cause := .unrecognized, source := "<string>", line := 1, startColumn := 6, endColumn := 7,
        text := "2", context := some "m1 1 2" })) := by
  refine ⟨by decide +kernel, ?_, ?_⟩
  · rw [Script.ofSource_eq_verdict]
    decide +kernel
  · rw [Script.ofSource_eq_verdict]
    decide +kernel

end OpticScript
