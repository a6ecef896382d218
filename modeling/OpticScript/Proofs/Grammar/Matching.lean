import OpticScript.Grammar
import OpticScript.Proofs.Grammar.Order
import OpticScript.Proofs.Grammar.Symbols
import OpticScript.Proofs.Packrat.Chains

/-!
# Expressions that are derived are matched

The tokens from a position on are listed (`Lists`). An expression that is derived from them is
read tier by tier, sums and products as chains (`DerivesExpr.reads`), up to a token that does not
go on with it (`Tier.EndsAt`). So the rule of a tier matches it there.
-/

namespace OpticScript

open Packrat Packrat.Branch

section

variable {items : Nat → Except ScriptError (Option Token)} {pos mid stop : Nat} {t : Token}

/-- A rule comes to this with enough fuel. -/
abbrev Rule.Matches (r : Rule) (items : Nat → Except ScriptError (Option Token)) (pos : Nat)
    (result : Option r.Result) (stop : Nat) : Prop :=
  Packrat.Matches (evaluate scriptGrammar items) r pos result stop

/-- The next token is of such a kind. -/
def Sees (items : Nat → Except ScriptError (Option Token)) (pos : Nat)
    (p : TokenKind → Prop) : Prop :=
  ∃ t, items pos = .ok (some t) ∧ p t.kind

/-- The next tokens have these symbols. -/
def Shows (items : Nat → Except ScriptError (Option Token)) : Nat → List Symbol → Prop
  | _, [] => True
  | pos, symbol :: symbols =>
    (∃ t, items pos = .ok (some t) ∧ t.symbol = symbol) ∧ Shows items (pos + 1) symbols

/-- The next tokens are these. -/
def Lists (items : Nat → Except ScriptError (Option Token)) : Nat → List Token → Prop
  | _, [] => True
  | pos, t :: tokens => items pos = .ok (some t) ∧ Lists items (pos + 1) tokens

theorem shows_iff_lists {symbols : List Symbol} :
    Shows items pos symbols ↔
      ∃ tokens, tokens.map Token.symbol = symbols ∧ Lists items pos tokens := by
  induction symbols generalizing pos with
  | nil => exact ⟨fun _ => ⟨[], rfl, trivial⟩, fun _ => trivial⟩
  | cons symbol symbols ih =>
    constructor
    · rintro ⟨⟨t, ht, rfl⟩, hmore⟩
      obtain ⟨tokens, rfl, hlists⟩ := ih.1 hmore
      exact ⟨t :: tokens, rfl, ht, hlists⟩
    · rintro ⟨tokens, heq, hlists⟩
      obtain ⟨t, tokens, rfl, rfl, rfl⟩ := List.map_eq_cons_iff.1 heq
      exact ⟨⟨t, hlists.1, rfl⟩, ih.2 ⟨tokens, rfl, hlists.2⟩⟩

/-- Tokens that come one after the other are listed. -/
theorem lists_of_getElem? {tokens : List Token}
    (h : ∀ i t, tokens[i]? = some t → items (pos + i) = .ok (some t)) : Lists items pos tokens := by
  induction tokens generalizing pos with
  | nil => trivial
  | cons t tokens ih =>
    refine ⟨h 0 t rfl, ih fun i t' hi => ?_⟩
    rw [Nat.add_right_comm, Nat.add_assoc]
    exact h (i + 1) t' hi

theorem lists_append {tokens more : List Token} : Lists items pos (tokens ++ more) ↔
    Lists items pos tokens ∧ Lists items (pos + tokens.length) more := by
  induction tokens generalizing pos with
  | nil => simp [Lists]
  | cons t tokens ih =>
    rw [List.cons_append, Lists, ih, Lists, and_assoc, List.length_cons, Nat.add_right_comm,
      Nat.add_assoc]

theorem Sees.imp {p q : TokenKind → Prop} (h : Sees items pos p) (hpq : ∀ kind, p kind → q kind) :
    Sees items pos q := by
  obtain ⟨t, ht, hkind⟩ := h
  exact ⟨t, ht, hpq _ hkind⟩

theorem add_length_cons (pos : Nat) (symbol : Symbol) (symbols : List Symbol) :
    pos + (symbol :: symbols).length = pos + 1 + symbols.length := by
  rw [List.length_cons, Nat.add_comm symbols.length, Nat.add_assoc]

theorem add_length_append (pos : Nat) (symbols more : List Symbol) :
    pos + (symbols ++ more).length = pos + symbols.length + more.length := by
  rw [List.length_append, Nat.add_assoc]

theorem shows_append {symbols more : List Symbol} : Shows items pos (symbols ++ more) ↔
    Shows items pos symbols ∧ Shows items (pos + symbols.length) more := by
  induction symbols generalizing pos with
  | nil => simp [Shows]
  | cons symbol symbols ih =>
    rw [add_length_cons, List.cons_append, Shows, ih, Shows, and_assoc]

theorem Shows.sees {symbol : Symbol} {symbols : List Symbol}
    (h : Shows items pos (symbol :: symbols)) : Sees items pos (· = symbol.kind) := by
  obtain ⟨⟨t, ht, rfl⟩, -⟩ := h
  exact ⟨t, ht, rfl⟩

/-! ## Tokens -/

/-- A rule that is not grown matches as its branches do. -/
theorem Rule.matches_of_branches {r : Rule} {result : Option r.Result}
    (hr : r.isLeftRecursive = false)
    (h : Branches.Match items (evaluate scriptGrammar items) (Phrase.branches r) pos result stop) :
    r.Matches items pos result stop := by
  refine Packrat.matches_of_branches (fun hgrown => ?_) rfl h
  simp [(Rule.strategy_eq_grown true r).1 hgrown] at hr

theorem matches_token {kind : TokenKind} (ht : items pos = .ok (some t)) (hkind : t.kind = kind) :
    (Rule.token kind).Matches items pos (some t) (pos + 1) :=
  Rule.matches_of_branches rfl
    (Branches.match_head (matches_take ht (by simp [hkind]) (matches_done _ _)))

theorem matches_token_none {kind : TokenKind} (h : Sees items pos (· ≠ kind)) :
    (Rule.token kind).Matches items pos none pos := by
  obtain ⟨t, ht, hkind⟩ := h
  exact Rule.matches_of_branches rfl
    (Branches.match_tail (matches_take_none ht (by simp [hkind])) (Branches.match_nil _))

/-! ## Expressions -/

/-- The kinds of tokens that would go on with an expression of a tier. -/
def Tier.goesOn : Tier → List TokenKind
  | .operand => [.number]
  | .power | .signed => [.power, .number]
  | .product => [.times, .divide, .floorDivide, .power, .number]
  | .sum => [.plus, .minus, .times, .divide, .floorDivide, .power, .number]

/-- The next token does not go on with an expression of a tier. -/
def Tier.EndsAt (items : Nat → Except ScriptError (Option Token)) (pos : Nat)
    (tier : Tier) : Prop :=
  Sees items pos (· ∉ tier.goesOn)

theorem Tier.EndsAt.of_subset {tier tier' : Tier} (h : tier.EndsAt items pos)
    (hsubset : tier'.goesOn ⊆ tier.goesOn) : tier'.EndsAt items pos :=
  Sees.imp h fun _ hkind hmem => hkind (hsubset hmem)

theorem Tier.EndsAt.matches_token_none {tier : Tier} (h : tier.EndsAt items pos) {kind : TokenKind}
    (hkind : kind ∈ tier.goesOn) : (Rule.token kind).Matches items pos none pos :=
  OpticScript.matches_token_none (Sees.imp h fun _ hnot heq => hnot (heq ▸ hkind))

def productLinks : List (Link Rule.Result .product .signed) :=
  [⟨.token .times, .binary .multiply⟩, ⟨.token .divide, .binary .divide⟩,
   ⟨.token .floorDivide, .binary .floorDivide⟩]

def sumLinks : List (Link Rule.Result .sum .product) :=
  [⟨.token .plus, .binary .add⟩, ⟨.token .minus, .binary .subtract⟩]

theorem isChainRule_product : IsChainRule scriptGrammar productLinks id where
  strategy := rfl
  branches := rfl
  base_ne := by decide
  operator_ne := by simp [productLinks]

theorem isChainRule_sum : IsChainRule scriptGrammar sumLinks id where
  strategy := rfl
  branches := rfl
  base_ne := by decide
  operator_ne := by simp [sumLinks]

/-- What is read of an expression of a tier from a position up to another one : a chain that may
go on, or a match. -/
def Tier.Reads (items : Nat → Except ScriptError (Option Token)) (pos : Nat) (e : Expr)
    (stop : Nat) : Tier → Prop
  | .sum => Tier.product.EndsAt items stop →
      Chained (evaluate scriptGrammar items) sumLinks id pos e stop
  | .product => Tier.signed.EndsAt items stop →
      Chained (evaluate scriptGrammar items) productLinks id pos e stop
  | .signed => Tier.signed.EndsAt items stop → Rule.signed.Matches items pos (some e) stop
  | .power => Tier.power.EndsAt items stop → Rule.power.Matches items pos (some e) stop
  | .operand => Tier.operand.EndsAt items stop → Rule.operand.Matches items pos (some e) stop

theorem Tier.Reads.matches_product {e : Expr} (h : Tier.product.Reads items pos e stop)
    (hstop : Tier.product.EndsAt items stop) : Rule.product.Matches items pos (some e) stop :=
  (h (hstop.of_subset (by decide))).matches_chain isChainRule_product fun link hlink => by
    simp only [productLinks, List.mem_cons, List.not_mem_nil, or_false] at hlink
    rcases hlink with rfl | rfl | rfl <;> exact hstop.matches_token_none (by decide)

theorem Tier.Reads.matches_sum {e : Expr} (h : Tier.sum.Reads items pos e stop)
    (hstop : Tier.sum.EndsAt items stop) : Rule.sum.Matches items pos (some e) stop :=
  (h (hstop.of_subset (by decide))).matches_chain isChainRule_sum fun link hlink => by
    simp only [sumLinks, List.mem_cons, List.not_mem_nil, or_false] at hlink
    rcases hlink with rfl | rfl <;> exact hstop.matches_token_none (by decide)

/-- A chain of sums goes on with an operator and a product. -/
theorem chained_sum {op : Operator} {l r : Expr} (hop : op = .add ∨ op = .subtract)
    (hleft : Chained (evaluate scriptGrammar items) sumLinks id pos l mid)
    (ht : items mid = .ok (some t)) (hkind : t.kind = op.kind)
    (hright : Rule.product.Matches items (mid + 1) (some r) stop) (hstop : mid < stop) :
    Chained (evaluate scriptGrammar items) sumLinks id pos (.binary op l r) stop := by
  have hnone : ∀ kind, kind ≠ op.kind → (Rule.token kind).Matches items mid none mid :=
    fun kind hne => matches_token_none ⟨t, ht, fun heq => hne (heq.symm.trans hkind)⟩
  rcases hop with rfl | rfl
  · exact Chained.more hleft (List.nil_append sumLinks).symm (by simp) (matches_token ht hkind)
      hright hstop
  · have hlinks :
      sumLinks = [⟨.token .plus, .binary .add⟩] ++ [⟨.token .minus, .binary .subtract⟩] := rfl
    exact Chained.more hleft hlinks (by simpa using hnone .plus (by decide))
      (matches_token ht hkind)
      hright hstop

/-- A chain of products goes on with an operator and a signed operand. -/
theorem chained_product {op : Operator} {l r : Expr}
    (hop : op = .multiply ∨ op = .divide ∨ op = .floorDivide)
    (hleft : Chained (evaluate scriptGrammar items) productLinks id pos l mid)
    (ht : items mid = .ok (some t)) (hkind : t.kind = op.kind)
    (hright : Rule.signed.Matches items (mid + 1) (some r) stop) (hstop : mid < stop) :
    Chained (evaluate scriptGrammar items) productLinks id pos (.binary op l r) stop := by
  have hnone : ∀ kind, kind ≠ op.kind → (Rule.token kind).Matches items mid none mid :=
    fun kind hne => matches_token_none ⟨t, ht, fun heq => hne (heq.symm.trans hkind)⟩
  have htimes := hnone .times
  have hdivide := hnone .divide
  rcases hop with rfl | rfl | rfl
  · exact Chained.more hleft (List.nil_append productLinks).symm (by simp) (matches_token ht hkind)
      hright hstop
  · have hlinks : productLinks = [⟨.token .times, .binary .multiply⟩] ++
        ⟨.token .divide, .binary .divide⟩ :: [⟨.token .floorDivide, .binary .floorDivide⟩] := rfl
    exact Chained.more hleft hlinks (by simpa using htimes (by decide)) (matches_token ht hkind)
      hright hstop
  · have hlinks :
        productLinks = [⟨.token .times, .binary .multiply⟩, ⟨.token .divide, .binary .divide⟩] ++
        [⟨.token .floorDivide, .binary .floorDivide⟩] := rfl
    exact Chained.more hleft hlinks (by simpa using ⟨htimes (by decide), hdivide (by decide)⟩)
      (matches_token ht hkind) hright hstop

/-! ### Operands -/

theorem matches_number {n : Number} (ht : items pos = .ok (some t)) (hkind : t.kind = .number)
    (hvalue : t.number? = some n) (hnext : Tier.operand.EndsAt items (pos + 1)) :
    Rule.operand.Matches items pos (some (.number n)) (pos + 1) := by
  obtain ⟨next, hitem, hnumber⟩ := hnext
  have hnumber : next.kind ≠ .number := by simpa [Tier.goesOn] using hnumber
  refine Rule.matches_of_branches rfl (Branches.match_tail (matches_call_none
    (matches_token_none ⟨t, ht, by simp [hkind]⟩)) (Branches.match_head ?_))
  exact matches_call (matches_token ht hkind)
    (matches_look hitem (matches_require (by simp [hnumber])
    (matches_ofOption hvalue (matches_done _ _))))

theorem matches_name (ht : items pos = .ok (some t)) (hkind : t.kind = .name) :
    Rule.operand.Matches items pos (some (.name t.text)) (pos + 1) := by
  have hnone : ∀ kind, kind ≠ .name → (Rule.token kind).Matches items pos none pos :=
    fun kind hne => matches_token_none ⟨t, ht, fun heq => hne (heq.symm.trans hkind)⟩
  refine Rule.matches_of_branches rfl (Branches.match_tail (matches_call_none (hnone _ (by decide)))
    (Branches.match_tail (matches_call_none (hnone _ (by decide))) (Branches.match_head ?_)))
  exact matches_call (matches_token ht hkind) (matches_done _ _)

theorem contents_eq {text : String} (h : IsContents t text) : Phrase.contents t = text := by
  rw [Phrase.contents]
  rcases h with h | ⟨h, rfl⟩
  · rw [h]
  · split
    · exact absurd ‹_› (h _)
    · rfl

theorem matches_text {s : String} (ht : items pos = .ok (some t)) (hkind : t.kind = .string)
    (htext : IsContents t s) : Rule.operand.Matches items pos (some (.text s)) (pos + 1) := by
  have hnone : ∀ kind, kind ≠ .string → (Rule.token kind).Matches items pos none pos :=
    fun kind hne => matches_token_none ⟨t, ht, fun heq => hne (heq.symm.trans hkind)⟩
  refine Rule.matches_of_branches rfl (Branches.match_tail (matches_call_none (hnone _ (by decide)))
    (Branches.match_tail (matches_call_none (hnone _ (by decide)))
    (Branches.match_tail (matches_call_none (hnone _ (by decide))) (Branches.match_head ?_))))
  rw [← contents_eq htext]
  exact matches_call (matches_token ht hkind) (matches_done _ _)

/-- A sum in parentheses. -/
theorem matches_group {e : Expr} {right : Token} (ht : items pos = .ok (some t))
    (hkind : t.kind = .leftParen) (hinner : Rule.sum.Matches items (pos + 1) (some e) stop)
    (hright : items stop = .ok (some right)) (hclose : right.kind = .rightParen) :
    Rule.operand.Matches items pos (some e) (stop + 1) :=
  Rule.matches_of_branches rfl (Branches.match_head (matches_call (matches_token ht hkind)
    (matches_call hinner (matches_call (matches_token hright hclose) (matches_done _ _)))))

theorem matches_power {l r : Expr} (hleft : Rule.operand.Matches items pos (some l) mid)
    (ht : items mid = .ok (some t)) (hkind : t.kind = .power)
    (hright : Rule.signed.Matches items (mid + 1) (some r) stop) :
    Rule.power.Matches items pos (some (.binary .power l r)) stop :=
  Rule.matches_of_branches rfl (Branches.match_head (matches_call hleft
    (matches_call (matches_token ht hkind) (matches_call hright (matches_done _ _)))))

theorem matches_power_operand {e : Expr} (h : Rule.operand.Matches items pos (some e) stop)
    (hstop : Tier.power.EndsAt items stop) : Rule.power.Matches items pos (some e) stop :=
  Rule.matches_of_branches rfl (Branches.match_tail (matches_call h
    (matches_call_none (hstop.matches_token_none (by decide)))) (Branches.match_head
      (matches_call h (matches_done _ _))))

theorem matches_sign {sign : Sign} {e : Expr} (ht : items pos = .ok (some t))
    (hkind : t.kind = sign.kind) (h : Rule.signed.Matches items (pos + 1) (some e) stop) :
    Rule.signed.Matches items pos (some (.unary sign e)) stop := by
  cases sign with
  | plus =>
    exact Rule.matches_of_branches rfl (Branches.match_head (matches_call (matches_token ht hkind)
      (matches_call h (matches_done _ _))))
  | minus =>
    have hplus : t.kind ≠ .plus := by simp [hkind, Sign.kind]
    refine Rule.matches_of_branches rfl (Branches.match_tail
      (matches_call_none (matches_token_none ⟨t, ht, hplus⟩)) (Branches.match_head ?_))
    exact matches_call (matches_token ht hkind) (matches_call h (matches_done _ _))

theorem matches_signed_power {e : Expr} (h : Rule.power.Matches items pos (some e) stop)
    (hsign : Sees items pos (· ∉ [.plus, .minus])) :
    Rule.signed.Matches items pos (some e) stop := by
  have hnone : ∀ kind ∈ [TokenKind.plus, .minus], (Rule.token kind).Matches items pos none pos :=
    fun kind hkind => matches_token_none (hsign.imp fun _ hnot heq => hnot (heq ▸ hkind))
  exact Rule.matches_of_branches rfl (Branches.match_tail (matches_call_none (hnone _ (by decide)))
    (Branches.match_tail (matches_call_none (hnone _ (by decide)))
    (Branches.match_head (matches_call h (matches_done _ _)))))

/-! ### Tiers -/

theorem SumOperator.kind_eq {kind : TokenKind} {op : Operator} (h : SumOperator kind op) :
    kind = op.kind ∧ (op = .add ∨ op = .subtract) := by
  cases h <;> simp [Operator.kind]

theorem ProductOperator.kind_eq {kind : TokenKind} {op : Operator} (h : ProductOperator kind op) :
    kind = op.kind ∧ (op = .multiply ∨ op = .divide ∨ op = .floorDivide) := by
  cases h <;> simp [Operator.kind]

theorem SignToken.kind_eq {kind : TokenKind} {sign : Sign} (h : SignToken kind sign) :
    kind = sign.kind := by
  cases h <;> rfl

/-- A power begins with a parenthesis, a number, a name or a text. -/
theorem DerivesExpr.not_sign {tier : Tier} {tokens rest : List Token} {e : Expr}
    (h : DerivesExpr tier tokens rest e) (htier : tier = .power ∨ tier = .operand)
    (hlists : Lists items pos tokens) : Sees items pos (· ∉ [.plus, .minus]) := by
  induction h with
  | power _ _ _ ih => exact ih (.inr rfl) hlists
  | ofOperand _ ih => exact ih (.inr rfl) hlists
  | parens hleft => exact ⟨_, hlists.1, by simp [hleft]⟩
  | number h => exact ⟨_, hlists.1, by simp [h]⟩
  | name h => exact ⟨_, hlists.1, by simp [h]⟩
  | string h => exact ⟨_, hlists.1, by simp [h]⟩
  | _ => simp at htier

/-- An expression that is derived is read. -/
theorem DerivesExpr.reads {tier : Tier} {tokens rest : List Token} {e : Expr}
    (h : DerivesExpr tier tokens rest e) (hlists : Lists items pos tokens) :
    ∃ stop, pos < stop ∧ stop + rest.length = pos + tokens.length ∧ Lists items stop rest ∧
      tier.Reads items pos e stop := by
  induction h generalizing pos with
  | sum _ hop _ ihl ihr =>
    obtain ⟨hkind, hop⟩ := hop.kind_eq
    obtain ⟨mid, hmid, hlength, ⟨ht, hrest⟩, hl⟩ := ihl hlists
    obtain ⟨stop, hstop, hlength', hrest, hr⟩ := ihr hrest
    refine ⟨stop, by omega, by simp only [List.length_cons] at hlength; omega, hrest,
      fun hends => ?_⟩
    have hlast : Tier.product.EndsAt items mid :=
      ⟨_, ht, by rcases hop with rfl | rfl <;> simp [hkind, Operator.kind, Tier.goesOn]⟩
    exact chained_sum hop (hl hlast) ht hkind (hr.matches_product hends) (by omega)
  | ofProduct _ ih =>
    obtain ⟨stop, hstop, hlength, hrest, h⟩ := ih hlists
    exact ⟨stop, hstop, hlength, hrest, fun hends => .first (h.matches_product hends) hstop⟩
  | product _ hop _ ihl ihr =>
    obtain ⟨hkind, hop⟩ := hop.kind_eq
    obtain ⟨mid, hmid, hlength, ⟨ht, hrest⟩, hl⟩ := ihl hlists
    obtain ⟨stop, hstop, hlength', hrest, hr⟩ := ihr hrest
    refine ⟨stop, by omega, by simp only [List.length_cons] at hlength; omega, hrest,
      fun hends => ?_⟩
    have hlast : Tier.signed.EndsAt items mid :=
      ⟨_, ht, by rcases hop with rfl | rfl | rfl <;> simp [hkind, Operator.kind, Tier.goesOn]⟩
    exact chained_product hop (hl hlast) ht hkind (hr hends) (by omega)
  | ofSigned _ ih =>
    obtain ⟨stop, hstop, hlength, hrest, h⟩ := ih hlists
    exact ⟨stop, hstop, hlength, hrest, fun hends => .first (h hends) hstop⟩
  | signed hsign _ ih =>
    obtain ⟨stop, hstop, hlength, hrest, h⟩ := ih hlists.2
    exact ⟨stop, by omega, by rw [List.length_cons]; omega, hrest,
      fun hends => matches_sign hlists.1 hsign.kind_eq (h hends)⟩
  | ofPower hpower ih =>
    obtain ⟨stop, hstop, hlength, hrest, h⟩ := ih hlists
    exact ⟨stop, hstop, hlength, hrest,
      fun hends => matches_signed_power (h hends) (hpower.not_sign (.inl rfl) hlists)⟩
  | power _ hop _ ihl ihr =>
    obtain ⟨mid, hmid, hlength, ⟨ht, hrest⟩, hl⟩ := ihl hlists
    obtain ⟨stop, hstop, hlength', hrest, hr⟩ := ihr hrest
    refine ⟨stop, by omega, by simp only [List.length_cons] at hlength; omega, hrest,
      fun hends => ?_⟩
    exact matches_power (hl ⟨_, ht, by simp [hop, Tier.goesOn]⟩) ht hop (hr hends)
  | ofOperand _ ih =>
    obtain ⟨stop, hstop, hlength, hrest, h⟩ := ih hlists
    exact ⟨stop, hstop, hlength, hrest,
      fun hends => matches_power_operand (h (hends.of_subset (by decide))) hends⟩
  | parens hleft _ hright ih =>
    obtain ⟨stop, hstop, hlength, ⟨ht, hrest⟩, h⟩ := ih hlists.2
    have hends : Tier.sum.EndsAt items stop := ⟨_, ht, by simp [hright, Tier.goesOn]⟩
    exact ⟨stop + 1, by omega, by simp only [List.length_cons] at hlength ⊢; omega, hrest,
      fun _ => matches_group hlists.1 hleft (h.matches_sum hends) ht hright⟩
  | number h _ hvalue =>
    exact ⟨pos + 1, Nat.lt_succ_self pos, by simp only [List.length_cons]; omega, hlists.2,
      matches_number hlists.1 h hvalue⟩
  | name h =>
    exact ⟨pos + 1, Nat.lt_succ_self pos, by simp only [List.length_cons]; omega, hlists.2,
      fun _ => matches_name hlists.1 h⟩
  | string h htext =>
    exact ⟨pos + 1, Nat.lt_succ_self pos, by simp only [List.length_cons]; omega, hlists.2,
      fun _ => matches_text hlists.1 h htext⟩

end

end OpticScript
