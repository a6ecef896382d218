import OpticScript.Proofs.Grammar.Matching
import OpticScript.Proofs.Text.Quoted

/-!
# Expressions in print

An expression is printed with parentheses around an operand only where it needs them
(`Expr.print`) : where its level is lower than that of the place it stands in. The level of an
expression is that of its operator (`Tier.level`), and an operator needs operands of certain levels
(`Operator.left`, `Operator.right`). The printed text consists of symbols (`Expr.printed`), and the
expression is derived from any tokens with these symbols (`Expr.derives_printed`).

The symbols of an expression that needs no parentheses are those that are printed
(`Expr.Fits.printed_eq`). So such an expression is read where its symbols are shown
(`Expr.Fits.reads`).
-/

namespace OpticScript

/-! ## Levels -/

def Tier.level : Tier → Nat
  | sum => 0
  | product => 1
  | signed => 2
  | power => 3
  | operand => 4

def Operator.tier : Operator → Tier
  | add | subtract => .sum
  | multiply | divide | floorDivide => .product
  | power => .power

/-- The tier that the left operand has to be of. -/
def Operator.left : Operator → Tier
  | add | subtract => .sum
  | multiply | divide | floorDivide => .product
  | power => .operand

/-- The tier that the right operand has to be of. -/
def Operator.right : Operator → Tier
  | add | subtract => .product
  | multiply | divide | floorDivide | power => .signed

namespace Expr

/-- The tier that the expression is of, if its operands need no parentheses. -/
def tier : Expr → Tier
  | binary .add _ _ | binary .subtract _ _ => .sum
  | binary .power _ _ => .power
  | binary _ _ _ => .product
  | unary _ _ => .signed
  | _ => .operand

theorem tier_binary (op : Operator) (l r : Expr) : (binary op l r).tier = op.tier := by
  cases op <;> rfl

/-! ## Printing -/

/-- The text of an expression, in parentheses where it is too loose. -/
def enclose (needed : Tier) (e : Expr) (text : String) : String :=
  if e.tier.level < needed.level then "(" ++ text ++ ")" else text

/-- The text of an expression with as few parentheses as it needs. -/
def print (quote : Char) : Expr → String
  | number value => value.render
  | name spelling => spelling
  | text value => Text.escaped quote value
  | unary sign operand => sign.symbol ++ operand.enclose .signed (operand.print quote)
  | binary operator left right =>
    left.enclose operator.left (left.print quote) ++ operator.symbol ++
      right.enclose operator.right (right.print quote)

/-- The symbols of an expression, in parentheses where it is too loose. -/
def enclosed (needed : Tier) (e : Expr) (symbols : List Symbol) : List Symbol :=
  if e.tier.level < needed.level then
    Bracket.paren.opening :: symbols ++ [Bracket.paren.closing]
  else symbols

/-- The symbols that are printed, with `string` for a text. -/
def printed (string : String → Symbol) : Expr → List Symbol
  | number value => [.number value]
  | name spelling => [.name spelling]
  | text value => [string value]
  | unary sign operand =>
    .mark sign.kind sign.symbol :: operand.enclosed .signed (operand.printed string)
  | binary operator left right =>
    left.enclosed operator.left (left.printed string) ++
      .mark operator.kind operator.symbol :: right.enclosed operator.right (right.printed string)

end Expr

/-- A text in quotes, with the backslashes, quotes and line feeds in it escaped. -/
def Symbol.escaped (quote : Char) (text : String) : Symbol :=
  { kind := .string, text := Text.escaped quote text, literal := .text text }

namespace Expr

theorem toList_enclose {text : String} {symbols : List Symbol} (needed : Tier) (e : Expr)
    (h : text.toList = spelled symbols) :
    (e.enclose needed text).toList = spelled (e.enclosed needed symbols) := by
  unfold enclose enclosed
  split
  · simp [h, Bracket.opening, Bracket.closing, Symbol.mark]
  · exact h

theorem toList_print (quote : Char) (e : Expr) :
    (e.print quote).toList = spelled (e.printed (.escaped quote)) := by
  induction e with
  | number value => simp [print, printed, Symbol.number]
  | name spelling => simp [print, printed, Symbol.name, Symbol.mark]
  | text value => simp [print, printed, Symbol.escaped]
  | unary sign operand ih => simp [print, printed, toList_enclose _ _ ih, Symbol.mark]
  | binary operator left right ihl ihr =>
    simp [print, printed, toList_enclose _ _ ihl, toList_enclose _ _ ihr, Symbol.mark]

end Expr

/-! ## Printed expressions are derived -/

section

variable {tier needed : Tier} {tokens rest : List Token} {e : Expr}

/-- An expression of a tier is one of each looser tier. -/
theorem DerivesExpr.loosen (h : DerivesExpr tier tokens rest e) (hle : needed.level ≤ tier.level) :
    DerivesExpr needed tokens rest e := by
  have hpower : Tier.power.level ≤ tier.level → DerivesExpr .power tokens rest e := fun hle => by
    cases tier with
    | power => exact h
    | operand => exact .ofOperand h
    | _ => simp [Tier.level] at hle
  have hsigned : Tier.signed.level ≤ tier.level → DerivesExpr .signed tokens rest e := fun hle => by
    cases tier with
    | signed => exact h
    | power | operand => exact .ofPower (hpower (by decide))
    | _ => simp [Tier.level] at hle
  have hproduct : Tier.product.level ≤ tier.level →
      DerivesExpr .product tokens rest e := fun hle => by
    cases tier with
    | product => exact h
    | signed | power | operand => exact .ofSigned (hsigned (by decide))
    | sum => simp [Tier.level] at hle
  cases needed with
  | sum =>
    cases tier with
    | sum => exact h
    | _ => exact .ofProduct (hproduct (by decide))
  | product => exact hproduct hle
  | signed => exact hsigned hle
  | power => exact hpower hle
  | operand =>
    cases tier with
    | operand => exact h
    | _ => simp [Tier.level] at hle

/-- An operator between two operands that are tight enough. -/
theorem DerivesExpr.binary {op : Operator} {operator : Token} {mid : List Token} {l r : Expr}
    (left : DerivesExpr op.left tokens (operator :: mid) l) (hop : operator.kind = op.kind)
    (right : DerivesExpr op.right mid rest r) :
    DerivesExpr op.tier tokens rest (.binary op l r) := by
  cases op with
  | add => exact .sum left (hop ▸ .plus) right
  | subtract => exact .sum left (hop ▸ .minus) right
  | multiply => exact .product left (hop ▸ .times) right
  | divide => exact .product left (hop ▸ .divide) right
  | floorDivide => exact .product left (hop ▸ .floorDivide) right
  | power => exact .power left hop right

theorem Symbol.number?_eq {t : Token} {n : Number} (h : t.symbol = .number n) :
    t.number? = some n := by
  rw [Token.number?, show t.literal = .number n from congrArg Symbol.literal h]

/-- These symbols are strings with the texts for contents. -/
def IsString (string : String → Symbol) : Prop :=
  ∀ text, (string text).kind = .string ∧ (string text).literal = .text text

theorem derives_enclosed {symbols : List Symbol} {next : Token}
    (h : ∀ tokens next rest, next.kind ≠ .number → tokens.map Token.symbol = symbols →
      DerivesExpr e.tier (tokens ++ next :: rest) (next :: rest) e) (hnext : next.kind ≠ .number)
    (htokens : tokens.map Token.symbol = e.enclosed needed symbols) :
    DerivesExpr needed (tokens ++ next :: rest) (next :: rest) e := by
  unfold Expr.enclosed at htokens
  split at htokens
  · obtain ⟨left, tokens, rfl, hleft, hmore⟩ := List.map_eq_cons_iff.1 htokens
    obtain ⟨tokens, last, rfl, hinner, hlast⟩ := List.map_eq_append_iff.1 hmore
    obtain ⟨right, rfl, hright⟩ := List.map_eq_singleton_iff.1 hlast
    have hopen : left.kind = .leftParen := congrArg Symbol.kind hleft
    have hclose : right.kind = .rightParen := congrArg Symbol.kind hright
    have hgroup : DerivesExpr .sum (tokens ++ right :: next :: rest) (right :: next :: rest) e :=
      (h tokens right (next :: rest) (by simp [hclose]) hinner).loosen (Nat.zero_le _)
    rw [List.cons_append, List.append_assoc]
    refine (DerivesExpr.parens hopen hgroup hclose).loosen ?_
    cases needed <;> decide
  · rename_i htight
    exact (h tokens next rest hnext htokens).loosen (Nat.le_of_not_lt htight)

/-- An expression is derived from the symbols that are printed. -/
theorem Expr.derives_printed {string : String → Symbol} (hstring : IsString string) (e : Expr) :
    ∀ tokens next rest, next.kind ≠ .number → tokens.map Token.symbol = e.printed string →
      DerivesExpr e.tier (tokens ++ next :: rest) (next :: rest) e := by
  induction e with
  | number value =>
    intro tokens next rest hnext htokens
    obtain ⟨t, rfl, ht⟩ := List.map_eq_singleton_iff.1 htokens
    exact .number (congrArg Symbol.kind ht) hnext (Symbol.number?_eq ht)
  | name spelling =>
    intro tokens next rest hnext htokens
    obtain ⟨t, rfl, ht⟩ := List.map_eq_singleton_iff.1 htokens
    obtain rfl : t.text = spelling := congrArg Symbol.text ht
    exact .name (congrArg Symbol.kind ht)
  | text value =>
    intro tokens next rest hnext htokens
    obtain ⟨t, rfl, ht⟩ := List.map_eq_singleton_iff.1 htokens
    obtain ⟨hkind, hliteral⟩ := hstring value
    exact .string ((congrArg Symbol.kind ht).trans hkind)
      (.inl ((congrArg Symbol.literal ht).trans hliteral))
  | unary sign operand ih =>
    intro tokens next rest hnext htokens
    obtain ⟨t, tokens, rfl, ht, hmore⟩ := List.map_eq_cons_iff.1 htokens
    have hkind : t.kind = sign.kind := congrArg Symbol.kind ht
    have hsign : SignToken t.kind sign := by
      rw [hkind]
      cases sign <;> constructor
    exact .signed hsign (derives_enclosed ih hnext hmore)
  | binary op left right ihl ihr =>
    intro tokens next rest hnext htokens
    obtain ⟨before, tokens, rfl, hbefore, hmore⟩ := List.map_eq_append_iff.1 htokens
    obtain ⟨t, after, rfl, ht, hafter⟩ := List.map_eq_cons_iff.1 hmore
    have hkind : t.kind = op.kind := congrArg Symbol.kind ht
    have hoperator : t.kind ≠ .number := by
      rw [hkind]
      cases op <;> simp [Operator.kind]
    rw [List.append_assoc, tier_binary]
    exact .binary (derives_enclosed ihl hoperator hbefore) hkind (derives_enclosed ihr hnext hafter)

end

/-! ## Expressions that need no parentheses -/

section

variable {items : Nat → Except ScriptError (Option Token)} {pos : Nat} {tier : Tier} {e : Expr}

theorem Expr.enclosed_of_le {needed : Tier} (h : needed.level ≤ e.tier.level)
    (symbols : List Symbol) : e.enclosed needed symbols = symbols :=
  if_neg (Nat.not_lt_of_le h)

/-- An expression that needs no parentheses is printed without them. -/
theorem Expr.Fits.printed_eq (h : e.Fits tier) :
    tier.level ≤ e.tier.level ∧ e.printed .quoted = e.symbols := by
  have hbinary : ∀ {op : Operator} {l r : Expr}, op.left.level ≤ l.tier.level →
      op.right.level ≤ r.tier.level → l.printed .quoted = l.symbols →
      r.printed .quoted = r.symbols →
      (Expr.binary op l r).printed .quoted = (Expr.binary op l r).symbols := by
    intro op l r hl hr hleft hright
    rw [printed, enclosed_of_le hl, enclosed_of_le hr, hleft, hright, symbols]
  induction h with
  | sum _ hop _ ihl ihr =>
    rcases hop with rfl | rfl <;> exact ⟨Nat.le_refl _, hbinary ihl.1 ihr.1 ihl.2 ihr.2⟩
  | product _ hop _ ihl ihr =>
    rcases hop with rfl | rfl | rfl <;> exact ⟨Nat.le_refl _, hbinary ihl.1 ihr.1 ihl.2 ihr.2⟩
  | signed _ ih => exact ⟨Nat.le_refl _, by rw [printed, enclosed_of_le ih.1, ih.2, symbols]⟩
  | power _ _ ihl ihr => exact ⟨Nat.le_refl _, hbinary ihl.1 ihr.1 ihl.2 ihr.2⟩
  | ofProduct _ ih | ofSigned _ ih | ofPower _ ih | ofOperand _ ih =>
    exact ⟨Nat.le_trans (by decide) ih.1, ih.2⟩
  | number | name | text => exact ⟨Nat.le_refl _, rfl⟩

theorem isString_quoted : IsString .quoted := fun _ => ⟨rfl, rfl⟩

theorem Tier.number_mem_goesOn (tier : Tier) : TokenKind.number ∈ tier.goesOn := by
  cases tier <;> decide

/-- What is read in front of any token that does not go on with it is read. -/
theorem Tier.reads_of_next {stop : Nat}
    (h : ∀ next, items stop = .ok (some next) → next.kind ≠ .number → tier.Reads items pos e stop) :
    tier.Reads items pos e stop := by
  have hnext : ∀ tier' : Tier, tier'.EndsAt items stop → tier.Reads items pos e stop := by
    rintro tier' ⟨next, hitem, hkind⟩
    exact h next hitem fun heq => hkind (heq ▸ tier'.number_mem_goesOn)
  cases tier <;> exact fun hends => hnext _ hends hends

/-- An expression that needs no parentheses is read where its symbols are shown. -/
theorem Expr.Fits.reads (h : e.Fits tier) (hshows : Shows items pos e.symbols) :
    tier.Reads items pos e (pos + e.symbols.length) := by
  obtain ⟨hle, hprinted⟩ := h.printed_eq
  obtain ⟨tokens, htokens, hlists⟩ := shows_iff_lists.1 hshows
  have hlength : e.symbols.length = tokens.length := by rw [← htokens, List.length_map]
  rw [hlength]
  refine Tier.reads_of_next fun next hitem hnext => ?_
  have hderives := (e.derives_printed isString_quoted tokens next [] hnext
    (htokens.trans hprinted.symm)).loosen hle
  obtain ⟨stop, -, hstop, -, hreads⟩ := hderives.reads (lists_append.2 ⟨hlists, hitem, trivial⟩)
  obtain rfl : stop = pos + tokens.length := by
    simp only [List.length_append, List.length_cons, List.length_nil] at hstop
    omega
  exact hreads

end

end OpticScript
