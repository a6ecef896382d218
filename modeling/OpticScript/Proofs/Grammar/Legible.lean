import OpticScript.Proofs.Lexer.Scanned
import OpticScript.Proofs.Keywords
import OpticScript.Proofs.Script.Rendering

/-!
# Scripts that are read are legible

An expression is plain (`Expr.IsPlain`) if it needs no parentheses, is not taken for an action,
and has only texts and numbers in it that are read back. What is derived from the tokens of a
text is legible as far as it is plain : its names are words, its integers are in range, and its
actions are spelled by words and groups (`DerivesValue.isLegible`). So the commands of a script
that is read are legible (`isLegible_commandsOf`).
-/

namespace OpticScript

open Lexeme

/-! ## Plain expressions -/

namespace Expr

/-- The expression and the operands in it. -/
def parts : Expr → List Expr
  | unary sign operand => unary sign operand :: operand.parts
  | binary op left right => binary op left right :: (left.parts ++ right.parts)
  | e => [e]

def isSum : Expr → Bool
  | binary op _ _ => op = .add || op = .subtract
  | _ => false

def isProduct : Expr → Bool
  | binary op _ _ => op = .multiply || op = .divide || op = .floorDivide
  | _ => false

/-- Whether the expression is a number, a name or a text. -/
def isAtom : Expr → Bool
  | unary _ _ | binary _ _ _ => false
  | _ => true

/-- No operand of the expression needs parentheses : the right operand of a sum is no sum, the left
operand of a product is no sum and its right operand is neither a sum nor a product, nor is what
has a sign or is an exponent, and the base of a power is a number, a name or a text. -/
def Ungrouped : Expr → Prop
  | binary .add _ right | binary .subtract _ right => right.isSum = false
  | binary .power left right => left.isAtom = true ∧ right.isSum = false ∧ right.isProduct = false
  | binary _ left right => left.isSum = false ∧ right.isSum = false ∧ right.isProduct = false
  | unary _ operand => operand.isSum = false ∧ operand.isProduct = false
  | _ => True

/-- The texts and the binary64 numbers of the expression are read back from their text forms. -/
structure IsWritten (e : Expr) : Prop where
  texts : ∀ text, .text text ∈ e.parts → ∀ c ∈ text.toList, Text.IsWritable c
  floats : ∀ x, .number (.float x) ∈ e.parts → Decimal.RoundTrips x

/-- The expression needs no parentheses, does not start with a name that is a word of motion
codes, and is made of texts and numbers that are read back. -/
structure IsPlain (e : Expr) : Prop extends e.IsWritten where
  ungrouped : ∀ part ∈ e.parts, part.Ungrouped
  leftmost : ∀ w, e.leftmost = .name w → ¬IsMotionWord w

variable {e : Expr}

theorem IsWritten.of_subset {part : Expr} (h : e.IsWritten) (hsub : part.parts ⊆ e.parts) :
    part.IsWritten :=
  ⟨fun text htext => h.texts text (hsub htext), fun x hx => h.floats x (hsub hx)⟩

theorem tier_ne_sum (h : e.isSum = false) : e.tier ≠ .sum := by
  rcases e with _ | _ | _ | _ | ⟨_ | _ | _ | _ | _ | _, _, _⟩ <;> simp_all [tier, isSum]

theorem tier_ne_product (h : e.isProduct = false) : e.tier ≠ .product := by
  rcases e with _ | _ | _ | _ | ⟨_ | _ | _ | _ | _ | _, _, _⟩ <;> simp_all [tier, isProduct]

theorem tier_eq_operand (h : e.isAtom = true) : e.tier = .operand := by
  cases e <;> simp_all [tier, isAtom]

theorem Fits.toSigned {t : Tier} (h : e.Fits t) (hsum : t ≠ .sum) (hproduct : t ≠ .product) :
    e.Fits .signed := by
  cases t with
  | sum => exact absurd rfl hsum
  | product => exact absurd rfl hproduct
  | signed => exact h
  | power => exact .ofPower h
  | operand => exact .ofPower (.ofOperand h)

theorem Fits.toProduct {t : Tier} (h : e.Fits t) (hsum : t ≠ .sum) : e.Fits .product := by
  by_cases hproduct : t = .product
  · exact hproduct ▸ h
  · exact .ofSigned (h.toSigned hsum hproduct)

theorem Fits.toSum {t : Tier} (h : e.Fits t) : e.Fits .sum := by
  by_cases hsum : t = .sum
  · exact hsum ▸ h
  · exact .ofProduct (h.toProduct hsum)

/-- Where no operand needs parentheses, an expression is of the tier of its operator. -/
theorem fits_tier (h : ∀ part ∈ e.parts, part.Ungrouped) : e.Fits e.tier := by
  induction e with
  | number value => exact .number value
  | name spelling => exact .name spelling
  | text value => exact .text value
  | unary sign operand ih =>
    obtain ⟨⟨hsum, hproduct⟩, hoperand⟩ := List.forall_mem_cons.1 h
    exact .signed ((ih hoperand).toSigned (tier_ne_sum hsum) (tier_ne_product hproduct))
  | binary op left right ihl ihr =>
    obtain ⟨hself, hparts⟩ := List.forall_mem_cons.1 h
    obtain ⟨hleft, hright⟩ := List.forall_mem_append.1 hparts
    replace ihl := ihl hleft
    replace ihr := ihr hright
    have hproduct : ∀ {op : Operator}, op = .multiply ∨ op = .divide ∨ op = .floorDivide →
        left.isSum = false ∧ right.isSum = false ∧ right.isProduct = false →
        (binary op left right).Fits .product := fun hop ⟨hleft, hsum, hproduct⟩ =>
      .product (ihl.toProduct (tier_ne_sum hleft)) hop
        (ihr.toSigned (tier_ne_sum hsum) (tier_ne_product hproduct))
    cases op with
    | add => exact .sum ihl.toSum (.inl rfl) (ihr.toProduct (tier_ne_sum hself))
    | subtract => exact .sum ihl.toSum (.inr rfl) (ihr.toProduct (tier_ne_sum hself))
    | multiply => exact hproduct (.inl rfl) hself
    | divide => exact hproduct (.inr (.inl rfl)) hself
    | floorDivide => exact hproduct (.inr (.inr rfl)) hself
    | power =>
      obtain ⟨hbase, hsum, hproduct⟩ := hself
      exact .power (tier_eq_operand hbase ▸ ihl)
        (ihr.toSigned (tier_ne_sum hsum) (tier_ne_product hproduct))

end Expr

/-! ## Tokens -/

/-- Tokens of a text : a token is a lexeme, unless it is a newline or the end marker. -/
def AllScanned (tokens : List Token) : Prop :=
  ∀ t ∈ tokens, t.kind ≠ .newline → t.kind ≠ .endMarker → t.IsScanned

theorem allScanned_cons {t : Token} {tokens : List Token} : AllScanned (t :: tokens) ↔
    (t.kind ≠ .newline → t.kind ≠ .endMarker → t.IsScanned) ∧ AllScanned tokens :=
  List.forall_mem_cons

theorem AllScanned.isScanned {t : Token} {tokens : List Token} {kind : TokenKind}
    (h : AllScanned (t :: tokens)) (hkind : t.kind = kind) (hnewline : kind ≠ .newline)
    (hmark : kind ≠ .endMarker) : t.IsScanned :=
  h t List.mem_cons_self (hkind ▸ hnewline) (hkind ▸ hmark)

theorem AllScanned.tail {t : Token} {tokens : List Token} (h : AllScanned (t :: tokens)) :
    AllScanned tokens :=
  (allScanned_cons.1 h).2

section

variable {tokens rest : List Token}

/-! ## Actions -/

theorem DerivesCount.spells {count : String} (h : DerivesCount tokens rest count)
    (htokens : AllScanned tokens) :
    AllScanned rest ∧ ∃ n : Option Nat, (∀ value ∈ n, value < Number.integerLimit) ∧
      count.toList = spelled (countSymbols n) := by
  cases h with
  | nothing => exact ⟨htokens, none, by simp, rfl⟩
  | count hkind hvalue =>
    obtain ⟨hnonneg, hlt⟩ := (htokens.isScanned hkind (by decide) (by decide)).integer hkind hvalue
    obtain ⟨n, rfl⟩ := Int.eq_ofNat_of_zero_le hnonneg
    refine ⟨htokens.tail, some n, ?_, by simp [countSymbols, Symbol.number, Number.render]⟩
    rintro value ⟨⟩
    exact Int.ofNat_lt.1 hlt

/-- An action in brackets, which are spelled in one way each, is a group. -/
theorem spells_group {left right : Token} {inner count : String} {symbols : List Symbol}
    {n : Option Nat} (b : Bracket) (hopening : left.IsScanned ∧ left.kind = b.opening.kind)
    (hclosing : right.IsScanned ∧ right.kind = b.closing.kind)
    (hinner : SpellsAction symbols ∧ symbols ≠ [] ∧ inner.toList = spelled symbols)
    (hn : ∀ value ∈ n, b = .brace ∧ value < Number.integerLimit)
    (hcount : count.toList = spelled (countSymbols n)) :
    ∃ symbols, SpellsAction symbols ∧ symbols ≠ [] ∧
      (left.text ++ inner ++ right.text ++ count).toList = spelled symbols := by
  have hleft : left.text = b.opening.text := hopening.1.text_eq (by cases b <;> decide) hopening.2
  have hright : right.text = b.closing.text := hclosing.1.text_eq (by cases b <;> decide) hclosing.2
  obtain ⟨hspells, hne, heq⟩ := hinner
  refine ⟨_, .group hspells hne hn .nil, by simp, ?_⟩
  simp [hleft, hright, heq, hcount]

/-- An action is spelled by words and groups. -/
theorem DerivesAction.spells {codes : String} (h : DerivesAction tokens rest codes)
    (htokens : AllScanned tokens) : AllScanned rest ∧
      ∃ symbols, SpellsAction symbols ∧ symbols ≠ [] ∧ codes.toList = spelled symbols := by
  induction h with
  | join _ _ ih ih' =>
    obtain ⟨hmid, first, hfirst, hne, heq⟩ := ih htokens
    obtain ⟨hrest, second, hsecond, -, heq'⟩ := ih' hmid
    obtain ⟨symbols, hsymbols, hne', hspelled⟩ := hfirst.append hsecond
    exact ⟨hrest, symbols, hsymbols, hne' hne, by rw [String.toList_append, heq, heq', hspelled]⟩
  | braces hleft _ hright hrepeats ih =>
    obtain ⟨hmid, symbols, hinner⟩ := ih htokens.tail
    obtain ⟨hrest, n, hn, hcount⟩ := hrepeats.spells hmid.tail
    exact ⟨hrest, spells_group .brace ⟨htokens.isScanned hleft (by decide) (by decide), hleft⟩
      ⟨hmid.isScanned hright (by decide) (by decide), hright⟩ hinner
      (fun value hvalue => ⟨rfl, hn value hvalue⟩) hcount⟩
  | @brackets left right _ _ inner hleft _ hright ih =>
    obtain ⟨hmid, symbols, hinner⟩ := ih htokens.tail
    rw [← String.append_empty (s := left.text ++ inner ++ right.text)]
    exact ⟨hmid.tail, spells_group (n := none) .bracket
      ⟨htokens.isScanned hleft (by decide) (by decide), hleft⟩
      ⟨hmid.isScanned hright (by decide) (by decide), hright⟩ hinner (by simp) rfl⟩
  | @parens left right _ _ inner hleft _ hright ih =>
    obtain ⟨hmid, symbols, hinner⟩ := ih htokens.tail
    rw [← String.append_empty (s := left.text ++ inner ++ right.text)]
    exact ⟨hmid.tail, spells_group (n := none) .paren
      ⟨htokens.isScanned hleft (by decide) (by decide), hleft⟩
      ⟨hmid.isScanned hright (by decide) (by decide), hright⟩ hinner (by simp) rfl⟩
  | @codes word rest hkind hcodes =>
    exact ⟨htokens.tail, [.name word.text], .word hcodes (by simp) .nil, by simp,
      by simp [Symbol.name, Symbol.mark]⟩

/-! ## Values -/

theorem Expr.IsWritten.legible_number {n : Number} (h : (Expr.number n).IsWritten)
    (hinteger : ∀ value, n = .integer value → 0 ≤ value ∧ value < Number.integerLimit) :
    (Expr.number n).IsLegible := by
  cases n with
  | integer value => exact hinteger value rfl
  | float x => exact h.floats x List.mem_cons_self

/-- The names of an expression are words, and its integers are in range. -/
theorem DerivesExpr.isLegible {tier : Tier} {e : Expr} (h : DerivesExpr tier tokens rest e)
    (htokens : AllScanned tokens) : AllScanned rest ∧ (e.IsWritten → e.IsLegible) := by
  have hboth : ∀ {op : Operator} {l r : Expr}, (l.IsWritten → l.IsLegible) →
      (r.IsWritten → r.IsLegible) →
      (Expr.binary op l r).IsWritten → (Expr.binary op l r).IsLegible := fun hl hr h =>
    ⟨hl (h.of_subset (by simp [Expr.parts])), hr (h.of_subset (by simp [Expr.parts]))⟩
  induction h with
  | sum _ _ _ ihl ihr | product _ _ _ ihl ihr | power _ _ _ ihl ihr =>
    obtain ⟨hmid, hl⟩ := ihl htokens
    obtain ⟨hrest, hr⟩ := ihr hmid.tail
    exact ⟨hrest, hboth hl hr⟩
  | ofProduct _ ih | ofSigned _ ih | ofPower _ ih | ofOperand _ ih => exact ih htokens
  | signed _ _ ih =>
    obtain ⟨hrest, he⟩ := ih htokens.tail
    exact ⟨hrest, fun h => he (h.of_subset (by simp [Expr.parts]))⟩
  | parens _ _ _ ih =>
    obtain ⟨hrest, he⟩ := ih htokens.tail
    exact ⟨hrest.tail, he⟩
  | number hkind _ hvalue =>
    refine ⟨htokens.tail, fun h => h.legible_number ?_⟩
    rintro value rfl
    exact (htokens.isScanned hkind (by decide) (by decide)).integer hkind hvalue
  | name hkind =>
    exact ⟨htokens.tail, fun _ => (htokens.isScanned hkind (by decide) (by decide)).isWord hkind⟩
  | string => exact ⟨htokens.tail, fun h => h.texts _ List.mem_cons_self⟩

/-- The value is legible as far as it is plain. -/
def Value.ReadsBack (v : Value) : Prop := (∀ e, v.expr? = some e → e.IsPlain) → v.IsLegible

theorem DerivesValue.readsBack {v : Value} (h : DerivesValue tokens rest v)
    (htokens : AllScanned tokens) : AllScanned rest ∧ v.ReadsBack := by
  cases h with
  | @action codes h =>
    obtain ⟨hrest, symbols, hsymbols, hne, heq⟩ := h.spells htokens
    obtain rfl : codes = String.ofList (spelled symbols) := by rw [← heq, String.ofList_toList]
    exact ⟨hrest, fun _ => Value.isLegible_action hsymbols hne⟩
  | @expr e h =>
    obtain ⟨hrest, he⟩ := h.isLegible htokens
    refine ⟨hrest, fun hplain => ?_⟩
    have he' : e.IsPlain := hplain e rfl
    exact Value.isLegible_expr (he he'.toIsWritten) (Expr.fits_tier he'.ungrouped).toSum
      he'.leftmost

/-! ## Parameters -/

/-- The values of parameters are legible as far as they are plain, the keys are words, and there is
at least one parameter. -/
structure SoundParams (args : List Value) (pairs : List (String × Value)) : Prop where
  values : ∀ v ∈ args, v.ReadsBack
  keywords : ∀ pair ∈ pairs, IsWord pair.1.toList ∧ pair.2.ReadsBack
  nonempty : args ≠ [] ∨ pairs ≠ []

theorem DerivesPositional.readsBack {v : Value} (h : DerivesPositional tokens rest v)
    (htokens : AllScanned tokens) : AllScanned rest ∧ v.ReadsBack := by
  cases h with
  | value h => exact h.readsBack htokens

theorem DerivesMoreValues.readsBack {vs : List Value} (h : DerivesMoreValues tokens rest vs)
    (htokens : AllScanned tokens) : AllScanned rest ∧ ∀ v ∈ vs, v.ReadsBack := by
  induction h with
  | nothing => exact ⟨htokens, by simp⟩
  | more _ head _ ih =>
    obtain ⟨hmid, hv⟩ := head.readsBack htokens.tail
    obtain ⟨hrest, hvs⟩ := ih hmid
    exact ⟨hrest, List.forall_mem_cons.2 ⟨hv, hvs⟩⟩

theorem DerivesValueList.readsBack {vs : List Value} (h : DerivesValueList tokens rest vs)
    (htokens : AllScanned tokens) : AllScanned rest ∧ vs ≠ [] ∧ ∀ v ∈ vs, v.ReadsBack := by
  cases h with
  | values head tail =>
    obtain ⟨hmid, hv⟩ := head.readsBack htokens
    obtain ⟨hrest, hvs⟩ := tail.readsBack hmid
    exact ⟨hrest, List.cons_ne_nil _ _, List.forall_mem_cons.2 ⟨hv, hvs⟩⟩

theorem DerivesCommas.allScanned (h : DerivesCommas tokens rest) (htokens : AllScanned tokens) :
    AllScanned rest := by
  induction h with
  | one => exact htokens.tail
  | more _ _ ih => exact ih htokens.tail

theorem DerivesPairs.readsBack {ps : List (String × Value)} (h : DerivesPairs tokens rest ps)
    (htokens : AllScanned tokens) : AllScanned rest ∧ ps ≠ [] ∧
      ∀ pair ∈ ps, IsWord pair.1.toList ∧ pair.2.ReadsBack := by
  induction h with
  | join _ commas _ ihl ihr =>
    obtain ⟨hmid, hne, hl⟩ := ihl htokens
    obtain ⟨hrest, -, hr⟩ := ihr (commas.allScanned hmid)
    exact ⟨hrest, by simp [hne], List.forall_mem_append.2 ⟨hl, hr⟩⟩
  | pair hname _ h =>
    obtain ⟨hrest, hv⟩ := h.readsBack htokens.tail.tail
    have hkey := (htokens.isScanned hname (by decide) (by decide)).isWord hname
    exact ⟨hrest, List.cons_ne_nil _ _, List.forall_mem_singleton.2 ⟨hkey, hv⟩⟩

theorem DerivesTrailing.allScanned (h : DerivesTrailing tokens rest) (htokens : AllScanned tokens) :
    AllScanned rest := by
  cases h with
  | nothing => exact htokens
  | comma => exact htokens.tail

theorem DerivesParams.sound {args : List Value} {pairs : List (String × Value)}
    (h : DerivesParams tokens rest args pairs) (htokens : AllScanned tokens) :
    AllScanned rest ∧ SoundParams args pairs := by
  cases h with
  | both values _ keywords trailing =>
    obtain ⟨hmid, hne, hargs⟩ := values.readsBack htokens
    obtain ⟨hrest, -, hpairs⟩ := keywords.readsBack hmid.tail
    exact ⟨trailing.allScanned hrest, hargs, hpairs, .inl hne⟩
  | values values trailing =>
    obtain ⟨hmid, hne, hargs⟩ := values.readsBack htokens
    exact ⟨trailing.allScanned hmid, hargs, by simp, .inl hne⟩
  | keywords keywords trailing =>
    obtain ⟨hmid, hne, hpairs⟩ := keywords.readsBack htokens
    exact ⟨trailing.allScanned hmid, by simp, hpairs, .inr hne⟩

/-! ## Lines -/

/-- The parameters of the line are sound, and a directive is a word. -/
def LineForm.IsSound : LineForm → Prop
  | blank => True
  | command directive args pairs => IsWord directive.toList ∧ SoundParams args pairs
  | surface args pairs => SoundParams args pairs

theorem DerivesCommand.isSound {form : LineForm} (h : DerivesCommand tokens rest form)
    (htokens : AllScanned tokens) : AllScanned rest ∧ form.IsSound := by
  cases h with
  | command hname params =>
    obtain ⟨hrest, hsound⟩ := params.sound htokens.tail
    exact ⟨hrest, (htokens.isScanned hname (by decide) (by decide)).isWord hname, hsound⟩
  | surface _ params => exact params.sound htokens.tail

theorem DerivesComment.allScanned (h : DerivesComment tokens rest) (htokens : AllScanned tokens) :
    AllScanned rest := by
  cases h with
  | nothing => exact htokens
  | comment => exact htokens.tail

theorem DerivesLine.isSound {form : LineForm} (h : DerivesLine tokens rest form)
    (htokens : AllScanned tokens) : AllScanned rest ∧ form.IsSound := by
  cases h with
  | command h comment =>
    obtain ⟨hmid, hform⟩ := h.isSound htokens
    exact ⟨(comment.allScanned hmid).tail, hform⟩
  | blank comment => exact ⟨(comment.allScanned htokens).tail, trivial⟩

theorem DerivesLines.isSound {forms : List LineForm} (h : DerivesLines tokens rest forms)
    (htokens : AllScanned tokens) : ∀ form ∈ forms, form.IsSound := by
  induction h with
  | nil => simp
  | cons head _ ih =>
    obtain ⟨hmid, hform⟩ := head.isSound htokens
    exact List.forall_mem_cons.2 ⟨hform, ih hmid⟩

end

/-! ## Commands -/

/-- The expressions among parameters. -/
def Parameters.exprs (p : Parameters) : List Expr :=
  (p.args ++ p.keywords.entries.map Prod.snd).filterMap Value.expr?

/-- The expressions among the parameters of a command and of its surfaces. -/
def Command.exprs (c : Command) : List Expr :=
  c.parameters.exprs ++ c.surfaces.toList.flatMap Parameters.exprs

theorem SoundParams.isLegible {args : List Value} {pairs : List (String × Value)}
    (h : SoundParams args pairs)
    (hplain : ∀ e ∈ (parametersOf args pairs).exprs, e.IsPlain) :
    (parametersOf args pairs).IsLegible := by
  have hvalue : ∀ v ∈ args ++ (Keywords.ofList pairs).entries.map Prod.snd,
      ∀ e, v.expr? = some e → e.IsPlain := fun v hv e he =>
    hplain e (List.mem_filterMap.2 ⟨v, hv, he⟩)
  refine Parameters.isLegible (fun v hv => ?_) (fun pair hpair => ?_) ?_
  · exact h.values v hv (hvalue v (List.mem_append_left _ hv))
  · obtain ⟨hkey, hv⟩ := h.keywords pair (Keywords.mem_of_mem_ofList hpair)
    exact ⟨hkey, hv (hvalue _ (List.mem_append_right _ (List.mem_map_of_mem hpair)))⟩
  · exact h.nonempty.imp_right Keywords.ofList_ne_nil

theorem isLegible_surfacesOf {forms : List LineForm} (h : ∀ form ∈ forms, form.IsSound) :
    ∀ p ∈ surfacesOf forms, (∀ e ∈ p.exprs, e.IsPlain) → p.IsLegible := by
  induction forms with
  | nil => simp [surfacesOf]
  | cons form forms ih =>
    obtain ⟨hform, hforms⟩ := List.forall_mem_cons.1 h
    cases form with
    | blank => exact ih hforms
    | command => simp [surfacesOf]
    | surface args pairs => exact List.forall_mem_cons.2 ⟨SoundParams.isLegible hform, ih hforms⟩

/-- The commands of sound lines are legible as far as their expressions are plain. -/
theorem isLegible_commandsOf {forms : List LineForm} (h : ∀ form ∈ forms, form.IsSound) :
    ∀ c ∈ commandsOf forms, (∀ e ∈ c.exprs, e.IsPlain) → c.IsLegible := by
  induction forms with
  | nil => simp [commandsOf]
  | cons form forms ih =>
    obtain ⟨hform, hforms⟩ := List.forall_mem_cons.1 h
    cases form with
    | blank => exact ih hforms
    | surface => exact ih hforms
    | command directive args pairs =>
      refine List.forall_mem_cons.2 ⟨fun hplain => ?_, ih hforms⟩
      obtain ⟨hparams, hsurfaces⟩ := List.forall_mem_append.1 hplain
      refine Command.isLegible hform.1 (hform.2.isLegible hparams) fun p hp => ?_
      exact isLegible_surfacesOf hforms p hp fun e he =>
        hsurfaces e (List.mem_flatMap.2 ⟨p, hp, he⟩)

end OpticScript
