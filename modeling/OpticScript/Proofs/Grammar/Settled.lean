import OpticScript.Proofs.Grammar.Parts

/-!
# Values that are settled

A value ends at a comma, a comment or the end of the line, and no token behind that has a say in
it. So tokens that are the same up to there (`SameUntilEnd`) derive the same actions and
expressions, and are cut short alike.

A value is settled by its tokens if it is derived up to such an end, and nothing else can be made
of them (`Settled`) : then it is what is read from tokens with the same symbols, wherever they
stand and whatever ends them (`Settled.readsFrom`). If a value is derived and not cut short,
some value is settled (`DerivesValue.exists_settled`), though it may be another one.
-/

namespace OpticScript

open Packrat

/-- A comma, a comment or the end of the line. -/
abbrev TokenKind.EndsParameter (kind : TokenKind) : Prop := kind ∈ [.comma, .newline, .comment]

theorem TokenKind.IsOperator.not_endsParameter {kind : TokenKind} (h : kind.IsOperator) :
    ¬kind.EndsParameter := h.notMem_of_subset (by decide)

/-- The first token ends a parameter. -/
inductive AtEnd : List Token → Prop
  | mk {t : Token} {rest : List Token} (h : t.kind.EndsParameter) : AtEnd (t :: rest)

/-- The tokens have the same symbols up to a token that ends a parameter. -/
inductive SameUntilEnd : List Token → List Token → Prop
  | ends {tokens tokens' : List Token} (h : AtEnd tokens) (h' : AtEnd tokens') :
    SameUntilEnd tokens tokens'
  | cons {t t' : Token} {tokens tokens' : List Token} (hkind : ¬t.kind.EndsParameter)
      (hsymbol : t'.symbol = t.symbol) (h : SameUntilEnd tokens tokens') :
      SameUntilEnd (t :: tokens) (t' :: tokens')

/-- What is read of the tokens as a value, whatever ends it. -/
inductive Settled (tokens : List Token) : Value → Prop
  | action {codes : String} {rest : List Token} (h : DerivesAction tokens rest codes)
    (hrest : AtEnd rest) : Settled tokens (.action codes)
  | expr {e : Expr} {rest : List Token} (h : DerivesExpr .sum tokens rest e) (hrest : AtEnd rest)
      (hcut : ¬CutShort tokens) (hmotion : ∀ {rest}, AtEnd rest → ¬DerivesMotion tokens rest) :
      Settled tokens (.expr e)

section

variable {t : Token} {tokens tokens' before before' rest rest' more : List Token}

/-! ## Tokens that are the same up to an end -/

namespace SameUntilEnd

theorem symm (h : SameUntilEnd tokens tokens') : SameUntilEnd tokens' tokens := by
  induction h with
  | ends h h' => exact .ends h' h
  | @cons t t' _ _ hkind hsymbol _ ih =>
    have hsame : t'.kind = t.kind := congrArg Symbol.kind hsymbol
    exact .cons (fun hends => hkind (hsame ▸ hends)) hsymbol.symm ih

/-- A token that ends no parameter comes on the other side as well. -/
theorem of_cons (h : SameUntilEnd (t :: tokens) more) (hkind : ¬t.kind.EndsParameter) :
    ∃ t' tokens', more = t' :: tokens' ∧ t'.kind = t.kind ∧ t'.text = t.text ∧
      t'.literal = t.literal ∧ SameUntilEnd tokens tokens' := by
  cases h with
  | ends hend =>
    obtain ⟨hends⟩ := hend
    exact absurd hends hkind
  | cons _ hsymbol h =>
    exact ⟨_, _, rfl, congrArg Symbol.kind hsymbol, congrArg Symbol.text hsymbol,
      congrArg Symbol.literal hsymbol, h⟩

theorem atEnd (h : SameUntilEnd tokens tokens') (hend : AtEnd tokens) : AtEnd tokens' := by
  cases h with
  | ends _ hend' => exact hend'
  | cons hkind =>
    obtain ⟨hends⟩ := hend
    exact absurd hends hkind

/-- Where a token of some kind does not come, it does not come on the other side either. -/
theorem kind_ne (h : SameUntilEnd (t :: tokens) more) {kind : TokenKind}
    (hkind : ¬kind.EndsParameter)
    (hne : t.kind ≠ kind) : ∃ t' tokens', more = t' :: tokens' ∧ t'.kind ≠ kind := by
  cases h with
  | ends _ hend =>
    obtain ⟨hends⟩ := hend
    exact ⟨_, _, rfl, fun heq => hkind (heq ▸ hends)⟩
  | @cons _ t' _ _ _ hsymbol =>
    have hsame : t'.kind = t.kind := congrArg Symbol.kind hsymbol
    exact ⟨_, _, rfl, fun heq => hne (hsame.symm.trans heq)⟩

theorem append (hsymbols : before'.map Token.symbol = before.map Token.symbol)
    (hbefore : ∀ t ∈ before, ¬t.kind.EndsParameter) (h : AtEnd rest) (h' : AtEnd rest') :
    SameUntilEnd (before ++ rest) (before' ++ rest') := by
  induction before generalizing before' with
  | nil =>
    obtain rfl := List.map_eq_nil_iff.1 hsymbols
    exact .ends h h'
  | cons t before ih =>
    obtain ⟨t', before', rfl, ht, hmore⟩ := List.map_eq_cons_iff.1 hsymbols
    obtain ⟨hkind, hbefore⟩ := List.forall_mem_cons.1 hbefore
    exact .cons hkind ht (ih hmore hbefore)

/-- What is carried over of the tokens in a group is carried over of the group. -/
theorem group {left right : Token} {inner : List Token} {P : List Token → List Token → Prop}
    (h : SameUntilEnd (left :: inner) tokens') (hleft : ¬left.kind.EndsParameter)
    (hinner : ∀ {inner'}, SameUntilEnd inner inner' →
      ∃ closed, SameUntilEnd (right :: rest) closed ∧ P inner' closed)
    (hright : ¬right.kind.EndsParameter) :
    ∃ left' inner' right' rest', tokens' = left' :: inner' ∧ left'.kind = left.kind ∧
      left'.text = left.text ∧
      right'.kind = right.kind ∧ right'.text = right.text ∧ P inner' (right' :: rest') ∧
      SameUntilEnd rest rest' := by
  obtain ⟨left', inner', rfl, hkind, htext, -, hsame⟩ := h.of_cons hleft
  obtain ⟨closed, hclosed, hP⟩ := hinner hsame
  obtain ⟨right', rest', rfl, hkind', htext', -, hrest⟩ := hclosed.of_cons hright
  exact ⟨left', inner', right', rest', rfl, hkind, htext, hkind', htext', hP, hrest⟩

end SameUntilEnd

theorem DerivesCount.same {count : String} (h : DerivesCount tokens rest count)
    (hsame : SameUntilEnd tokens tokens') :
    ∃ rest', SameUntilEnd rest rest' ∧ DerivesCount tokens' rest' count := by
  cases h with
  | nothing => exact ⟨tokens', hsame, .nothing _⟩
  | count hkind hvalue =>
    obtain ⟨number, rest', rfl, hnumber, -, hliteral, hrest⟩ := hsame.of_cons (by simp [hkind])
    refine ⟨rest', hrest, .count (hnumber.trans hkind) ?_⟩
    rwa [Token.number?, hliteral]

theorem DerivesAction.same {codes : String} (h : DerivesAction tokens rest codes)
    (hsame : SameUntilEnd tokens tokens') :
    ∃ rest', SameUntilEnd rest rest' ∧ DerivesAction tokens' rest' codes := by
  induction h generalizing tokens' with
  | join _ _ ihl ihr =>
    obtain ⟨mid, hmid, hfirst⟩ := ihl hsame
    obtain ⟨rest', hrest, hsecond⟩ := ihr hmid
    exact ⟨rest', hrest, .join hfirst hsecond⟩
  | braces hleft _ hright repeats ih =>
    obtain ⟨left, inner, right, mid, rfl, hleft', hopening, hright', hclosing, haction, hmid⟩ :=
      hsame.group (by simp [hleft]) ih (by simp [hright])
    obtain ⟨rest', hrest, hcount⟩ := repeats.same hmid
    rw [← hopening, ← hclosing]
    exact ⟨rest', hrest, .braces (hleft'.trans hleft) haction (hright'.trans hright) hcount⟩
  | brackets hleft _ hright ih =>
    obtain ⟨left, inner, right, rest', rfl, hleft', hopening, hright', hclosing, haction, hrest⟩ :=
      hsame.group (by simp [hleft]) ih (by simp [hright])
    rw [← hopening, ← hclosing]
    exact ⟨rest', hrest, .brackets (hleft'.trans hleft) haction (hright'.trans hright)⟩
  | parens hleft _ hright ih =>
    obtain ⟨left, inner, right, rest', rfl, hleft', hopening, hright', hclosing, haction, hrest⟩ :=
      hsame.group (by simp [hleft]) ih (by simp [hright])
    rw [← hopening, ← hclosing]
    exact ⟨rest', hrest, .parens (hleft'.trans hleft) haction (hright'.trans hright)⟩
  | codes hkind hcodes =>
    obtain ⟨word, rest', rfl, hword, htext, -, hrest⟩ := hsame.of_cons (by simp [hkind])
    rw [← htext] at hcodes ⊢
    exact ⟨rest', hrest, .codes (hword.trans hkind) hcodes⟩

theorem DerivesExpr.same {tier : Tier} {e : Expr} (h : DerivesExpr tier tokens rest e)
    (hsame : SameUntilEnd tokens tokens') :
    ∃ rest', SameUntilEnd rest rest' ∧ DerivesExpr tier tokens' rest' e := by
  induction h generalizing tokens' with
  | sum _ hop _ ihl ihr =>
    obtain ⟨mid, hmid, hl⟩ := ihl hsame
    obtain ⟨operator, right, rfl, hkind, -, -, hright⟩ :=
      hmid.of_cons hop.isOperator.not_endsParameter
    obtain ⟨rest', hrest, hr⟩ := ihr hright
    exact ⟨rest', hrest, .sum hl (hkind ▸ hop) hr⟩
  | product _ hop _ ihl ihr =>
    obtain ⟨mid, hmid, hl⟩ := ihl hsame
    obtain ⟨operator, right, rfl, hkind, -, -, hright⟩ :=
      hmid.of_cons hop.isOperator.not_endsParameter
    obtain ⟨rest', hrest, hr⟩ := ihr hright
    exact ⟨rest', hrest, .product hl (hkind ▸ hop) hr⟩
  | signed hsign _ ih =>
    obtain ⟨sign, operand, rfl, hkind, -, -, hoperand⟩ :=
      hsame.of_cons hsign.isOperator.not_endsParameter
    obtain ⟨rest', hrest, h⟩ := ih hoperand
    exact ⟨rest', hrest, .signed (hkind ▸ hsign) h⟩
  | power _ hop _ ihl ihr =>
    obtain ⟨mid, hmid, hl⟩ := ihl hsame
    obtain ⟨operator, right, rfl, hkind, -, -, hright⟩ := hmid.of_cons (by simp [hop])
    obtain ⟨rest', hrest, hr⟩ := ihr hright
    exact ⟨rest', hrest, .power hl (hkind.trans hop) hr⟩
  | ofProduct _ ih =>
    obtain ⟨rest', hrest, h⟩ := ih hsame
    exact ⟨rest', hrest, .ofProduct h⟩
  | ofSigned _ ih =>
    obtain ⟨rest', hrest, h⟩ := ih hsame
    exact ⟨rest', hrest, .ofSigned h⟩
  | ofPower _ ih =>
    obtain ⟨rest', hrest, h⟩ := ih hsame
    exact ⟨rest', hrest, .ofPower h⟩
  | ofOperand _ ih =>
    obtain ⟨rest', hrest, h⟩ := ih hsame
    exact ⟨rest', hrest, .ofOperand h⟩
  | parens hleft _ hright ih =>
    obtain ⟨left, inner, right, rest', rfl, hleft', -, hright', -, h, hrest⟩ :=
      hsame.group (by simp [hleft]) ih (by simp [hright])
    exact ⟨rest', hrest, .parens (hleft'.trans hleft) h (hright'.trans hright)⟩
  | number hkind hnext hvalue =>
    obtain ⟨number, rest', rfl, hnumber, -, hliteral, hrest⟩ := hsame.of_cons (by simp [hkind])
    obtain ⟨next, more, rfl, hne⟩ := hrest.kind_ne (by decide) hnext
    refine ⟨next :: more, hrest, .number (hnumber.trans hkind) hne ?_⟩
    rwa [Token.number?, hliteral]
  | name hkind =>
    obtain ⟨name, rest', rfl, hname, htext, -, hrest⟩ := hsame.of_cons (by simp [hkind])
    rw [← htext]
    exact ⟨rest', hrest, .name (hname.trans hkind)⟩
  | string hkind hcontents =>
    obtain ⟨string, rest', rfl, hstring, htext, hliteral, hrest⟩ := hsame.of_cons (by simp [hkind])
    refine ⟨rest', hrest, .string (hstring.trans hkind) ?_⟩
    rwa [IsContents, hliteral, htext]

theorem DerivesMotion.same (h : DerivesMotion tokens rest) (hsame : SameUntilEnd tokens tokens') :
    ∃ rest', SameUntilEnd rest rest' ∧ DerivesMotion tokens' rest' := by
  induction h generalizing tokens' with
  | word hkind hcodes =>
    obtain ⟨word, rest', rfl, hword, htext, -, hrest⟩ := hsame.of_cons (by simp [hkind])
    exact ⟨rest', hrest, .word (hword.trans hkind) (htext ▸ hcodes)⟩
  | parens hleft _ hright ih =>
    obtain ⟨left, inner, right, rest', rfl, hleft', -, hright', -, h, hrest⟩ :=
      hsame.group (by simp [hleft]) ih (by simp [hright])
    exact ⟨rest', hrest, .parens (hleft'.trans hleft) h (hright'.trans hright)⟩

theorem CutShort.same (h : CutShort tokens) (hsame : SameUntilEnd tokens tokens') :
    CutShort tokens' := by
  obtain ⟨operator, rest, hmotion, hoperator⟩ := h
  obtain ⟨rest', hrest, hmotion'⟩ := hmotion.same hsame
  obtain ⟨operator', rest', rfl, hkind, -, -, -⟩ := hrest.of_cons hoperator.not_endsParameter
  exact ⟨operator', rest', hmotion', hkind ▸ hoperator⟩

/-! ## Settled values -/

/-- If a value is derived and not cut short, it is settled, or an action is. -/
theorem DerivesValue.exists_settled {v : Value} (h : DerivesValue tokens rest v)
    (hrest : AtEnd rest) (hcut : ¬CutShort tokens) : ∃ v', Settled tokens v' := by
  cases h with
  | action h => exact ⟨_, .action h hrest⟩
  | expr h =>
    by_cases hmotion : ∃ rest, AtEnd rest ∧ DerivesMotion tokens rest
    · obtain ⟨rest, hrest, hmotion⟩ := hmotion
      obtain ⟨codes, haction⟩ := hmotion.derivesAction
      exact ⟨_, .action haction hrest⟩
    · exact ⟨_, .expr h hrest hcut fun hrest h => hmotion ⟨_, hrest, h⟩⟩

variable {items : Nat → Except ScriptError (Option Token)} {pos stop : Nat}

theorem AtEnd.parameterEnds (h : AtEnd tokens) (hlists : Lists items pos tokens) :
    ParameterEnds items pos := by
  obtain ⟨hends⟩ := h
  exact ⟨_, hlists.1, hends⟩

/-- Among tokens that end no parameter there is no end. -/
theorem Lists.eq_of_ends (h : Lists items pos before)
    (hbefore : ∀ t ∈ before, ¬t.kind.EndsParameter)
    (hends : ParameterEnds items stop) (hpos : pos ≤ stop) (hstop : stop ≤ pos + before.length) :
    stop = pos + before.length := by
  induction before generalizing pos with
  | nil => exact Nat.le_antisymm hstop hpos
  | cons t before ih =>
    obtain ⟨hkind, hbefore⟩ := List.forall_mem_cons.1 hbefore
    have hne : pos ≠ stop := by
      rintro rfl
      obtain ⟨t', ht', hkind'⟩ := hends
      obtain rfl : t = t' := by simpa [h.1] using ht'
      exact hkind hkind'
    rw [List.length_cons] at hstop ⊢
    rw [ih h.2 hbefore (by omega) (by omega)]
    omega

/-- What is settled is read from tokens with the same symbols, up to any end. -/
theorem Settled.readsFrom {v : Value} (h : Settled (before ++ rest) v)
    (hbefore : ∀ t ∈ before, ¬t.kind.EndsParameter) (hrest : AtEnd rest) :
    v.ReadsFrom (before.map Token.symbol) := by
  intro items pos hshows hends
  obtain ⟨before', hsymbols, hlists⟩ := shows_iff_lists.1 hshows
  obtain ⟨next, hitem, hnext⟩ := id hends
  rw [← hsymbols, List.length_map] at hitem hends ⊢
  have hall : Lists items pos (before' ++ [next]) := lists_append.2 ⟨hlists, hitem, trivial⟩
  have hsame : SameUntilEnd (before ++ rest) (before' ++ [next]) :=
    .append hsymbols hbefore hrest ⟨hnext⟩
  have hkinds : ∀ t ∈ before', ¬t.kind.EndsParameter := by
    intro t ht
    obtain ⟨s, hs, heq⟩ := List.mem_map.1 (hsymbols ▸ List.mem_map_of_mem ht)
    have hkind : s.kind = t.kind := congrArg Symbol.kind heq
    exact hkind ▸ hbefore s hs
  -- where an end comes after some of the tokens, it comes after all of them
  have hstop : ∀ {more : List Token} {stop : Nat}, AtEnd more → pos < stop →
      stop + more.length = pos + (before' ++ [next]).length → Lists items stop more →
      stop = pos + before'.length := by
    intro more stop hmore hlt hcount hlists'
    refine hlists.eq_of_ends hkinds (hmore.parameterEnds hlists') hlt.le ?_
    obtain ⟨-⟩ := hmore
    simp only [List.length_append, List.length_cons, List.length_nil] at hcount
    omega
  cases h with
  | action h hend =>
    obtain ⟨more, hmore, haction⟩ := h.same hsame
    obtain ⟨stop, hlt, hcount, hlists', hmatches⟩ := haction.matches_action hall
    obtain rfl := hstop (hmore.atEnd hend) hlt hcount hlists'
    exact matches_value_action (hmatches hends.valueEnds.actionEnds)
  | expr h hend hcut hmotion =>
    obtain ⟨more, hmore, hexpr⟩ := h.same hsame
    obtain ⟨stop, hlt, hcount, hlists', hreads⟩ := hexpr.reads hall
    obtain rfl := hstop (hmore.atEnd hend) hlt hcount hlists'
    rcases hexpr.commits hall with hnone | hword | hshort
    · exact matches_value_expr hnone (hreads.matches_sum hends.valueEnds.sumEnds)
    · obtain ⟨rest', hrest', hword⟩ := hword.same hsame.symm
      exact absurd hword (hmotion (hrest'.atEnd (hmore.atEnd hend)))
    · exact absurd (hshort.same hsame.symm) hcut

/-! ## The first value of a line -/

theorem DerivesTrailing.atEnd (h : DerivesTrailing tokens rest) (hrest : AtEnd rest) :
    AtEnd tokens := by
  cases h with
  | nothing => exact hrest
  | comma hcomma => exact ⟨by simp [hcomma]⟩

theorem DerivesMoreValues.atEnd {vs : List Value} (h : DerivesMoreValues tokens rest vs)
    (hrest : AtEnd rest) : AtEnd tokens := by
  cases h with
  | nothing => exact hrest
  | more hcomma => exact ⟨by simp [hcomma]⟩

theorem DerivesCommas.atEnd (h : DerivesCommas tokens rest) : AtEnd tokens := by
  cases h with
  | one hcomma | more hcomma => exact ⟨by simp [hcomma]⟩

theorem DerivesValueList.first {vs : List Value} (h : DerivesValueList tokens rest vs)
    (hrest : AtEnd rest) : vs ≠ [] ∧ ∃ v more, DerivesValue tokens more v ∧ AtEnd more := by
  cases h with
  | values head tail =>
    cases head with
    | value h => exact ⟨List.cons_ne_nil _ _, _, _, h, tail.atEnd hrest⟩

theorem DerivesPairs.first {pairs : List (String × Value)} (h : DerivesPairs tokens rest pairs)
    (hrest : AtEnd rest) : ∃ name equals more v more', tokens = name :: equals :: more ∧
      name.kind = .name ∧ equals.kind = .equals ∧ DerivesValue more more' v ∧ AtEnd more' := by
  induction h with
  | join _ commas _ ih => exact ih commas.atEnd
  | pair hname hequals h => exact ⟨_, _, _, _, _, rfl, hname, hequals, h, hrest⟩

/-- The parameters of a line begin with a value, or with a key if none is given by its position. -/
theorem DerivesParams.first {args : List Value} {pairs : List (String × Value)}
    (h : DerivesParams tokens rest args pairs) (hrest : AtEnd rest) :
    (args ≠ [] ∧ ∃ v more, DerivesValue tokens more v ∧ AtEnd more) ∨
      args = [] ∧ ∃ name equals more v more', tokens = name :: equals :: more ∧
        name.kind = .name ∧ equals.kind = .equals ∧ DerivesValue more more' v ∧ AtEnd more' := by
  cases h with
  | both values hcomma => exact .inl (values.first ⟨by simp [hcomma]⟩)
  | values values trailing => exact .inl (values.first (trailing.atEnd hrest))
  | keywords keywords trailing => exact .inr ⟨rfl, keywords.first (trailing.atEnd hrest)⟩

end

end OpticScript
