import Mathlib.Algebra.Ring.Int.Defs
import OpticScript.Proofs.Lexer.Reading

/-!
# Brackets

A word of brackets is balanced if it is made up of pairs that are nested or follow one another
(`Balanced`). The brackets that are open after a word are the ones between which it is balanced
(`Opened`); the innermost of them is determined by the word (`Opened.isInnermost_iff`). So
`Token.nest?` refuses a closing bracket if no bracket of its kind is the innermost open one
(`Opened.nest?_eq_none_iff`), and keeps account of the open ones (`Opened.nest?`).

The lexer checks parentheses and square brackets and nothing else (`Token.isBracket`). The
brackets that it gives begin a balanced word. It fails at the first closing bracket that does
not fit, or at the first opening one that is not closed, and the end marker comes if it can
read the text and the brackets are balanced (`Lexer.toEnd_nesting`).
-/

namespace OpticScript

namespace TokenKind

/-- Whether the kind is an opening bracket that the lexer checks. -/
def opens : TokenKind → Bool
  | leftParen | leftBracket => true
  | _ => false

/-- The opening bracket that a closing one goes with. -/
def opener? : TokenKind → Option TokenKind
  | rightParen => some leftParen
  | rightBracket => some leftBracket
  | _ => none

theorem opens_of_opener? {kind opening : TokenKind} (h : kind.opener? = some opening) :
    opening.opens = true ∧ kind.opens = false := by
  cases kind <;> simp_all [opener?, opens] <;> subst h <;> rfl

end TokenKind

namespace Token

/-- Whether the token is a bracket that the lexer checks. Braces are none. -/
def isBracket (t : Token) : Bool := t.kind.opens || t.kind.opener?.isSome

/-- What the token is, wherever it stands. -/
def sign (t : Token) : TokenKind × String := (t.kind, t.text)

/-- What a bracket adds to the number of open ones. -/
def depth (t : Token) : Int :=
  if t.kind.opens then 1 else if t.kind.opener?.isSome then -1 else 0

theorem nest?_eq (t : Token) (openers : List Token) : t.nest? openers =
    if t.kind.opens then some (t :: openers)
    else match t.kind.opener?, openers with
      | none, _ => some openers
      | some opening, innermost :: outer => if innermost.kind = opening then some outer else none
      | some _, [] => none := by
  unfold nest?
  cases t.kind <;> cases openers <;> rfl

end Token

/-- The brackets among the tokens. -/
def brackets (tokens : List Token) : List Token := tokens.filter Token.isBracket

/-- Pairs of brackets that are nested or follow one another. -/
inductive Balanced : List Token → Prop
  | nil : Balanced []
  | wrap {opening closing : Token} {inner : List Token}
      (hpair : closing.kind.opener? = some opening.kind) (h : Balanced inner) :
      Balanced (opening :: (inner ++ [closing]))
  | append {word word' : List Token} (h : Balanced word) (h' : Balanced word') :
      Balanced (word ++ word')

/-- The bracket is open after the word, and everything that was opened after it is closed. -/
def IsInnermost (word : List Token) (opener : Token) : Prop :=
  ∃ outer inner, word = outer ++ opener :: inner ∧ opener.kind.opens = true ∧ Balanced inner

/-- The token closes a bracket, and after the word no bracket of this kind is the innermost open
one. -/
def Misfits (word : List Token) (t : Token) : Prop :=
  ∃ opening, t.kind.opener? = some opening ∧
    ∀ opener, IsInnermost word opener → opener.kind ≠ opening

/-- The token comes after this part of the word and is the first one that does not fit. -/
def FirstMisfit (word before : List Token) (t : Token) : Prop :=
  (∃ after, word = before ++ t :: after) ∧ Misfits before t ∧
    ∀ earlier t' between, before = earlier ++ t' :: between → ¬Misfits earlier t'

/-- The bracket is closed within the word that comes after it. -/
def Closed (opener : Token) (after : List Token) : Prop :=
  ∃ inner closer rest, after = inner ++ closer :: rest ∧ Balanced inner ∧
    closer.kind.opener? = some opener.kind

/-- These brackets are open after the word, the innermost first. -/
inductive Opened : List Token → List Token → Prop
  | closed {word : List Token} (h : Balanced word) : Opened [] word
  | opened {openers before : List Token} (h : Opened openers before) {opener : Token}
      (hopens : opener.kind.opens = true) {inner : List Token} (hinner : Balanced inner) :
      Opened (opener :: openers) (before ++ opener :: inner)

/-! ## Balanced words -/

section

variable {word word' before after inner openers openers' tokens : List Token} {opener t : Token}

def height (word : List Token) : Int := (word.map Token.depth).sum

@[simp] theorem height_nil : height [] = 0 := rfl

@[simp] theorem height_cons (t : Token) (word : List Token) :
    height (t :: word) = t.depth + height word := by
  simp [height]

@[simp] theorem height_append (word word' : List Token) :
    height (word ++ word') = height word + height word' := by
  simp [height]

theorem depth_of_opens (h : t.kind.opens = true) : t.depth = 1 := if_pos h

theorem depth_of_opener? {opening : TokenKind} (h : t.kind.opener? = some opening) :
    t.depth = -1 := by
  simp [Token.depth, (TokenKind.opens_of_opener? h).2, h]

theorem Balanced.height_eq (h : Balanced word) : height word = 0 := by
  induction h with
  | nil => rfl
  | wrap hpair _ ih =>
    simp [depth_of_opens (TokenKind.opens_of_opener? hpair).1, depth_of_opener? hpair, ih]
  | append _ _ ih ih' => simp [ih, ih']

/-- Nowhere in a balanced word are there more closing brackets than opening ones before. -/
theorem Balanced.height_take_nonneg (h : Balanced word) (n : Nat) : 0 ≤ height (word.take n) := by
  induction h generalizing n with
  | nil => simp
  | @wrap opening closing inner hpair _ ih =>
    have hopening : opening.depth = 1 := depth_of_opens (TokenKind.opens_of_opener? hpair).1
    have hclosing : closing.depth = -1 := depth_of_opener? hpair
    rcases n with _ | n
    · simp
    · rw [List.take_succ_cons, height_cons, List.take_append, height_append, hopening]
      have hinside := ih n
      rcases hrest : n - inner.length with _ | m
      · simp only [List.take_zero, height_nil]
        omega
      · simp only [List.take_succ_cons, List.take_nil, height_cons, height_nil, hclosing]
        omega
  | append _ _ ih ih' =>
    rw [List.take_append, height_append]
    exact Int.add_nonneg (ih _) (ih' _)

theorem Balanced.height_left_nonneg (h : Balanced (word ++ word')) : 0 ≤ height word := by
  simpa using h.height_take_nonneg word.length

/-- A bracket after which a balanced word is balanced is not an opening one. -/
theorem Balanced.not_isInnermost (h : Balanced word) : ¬IsInnermost word opener := by
  rintro ⟨outer, inner, rfl, hopens, hinner⟩
  have hleft := h.height_left_nonneg
  have hwhole := h.height_eq
  simp only [height_append, height_cons, depth_of_opens hopens, hinner.height_eq] at hwhole
  omega

/-- An item of two lists is one of the first or one of the second. -/
theorem append_eq_append_cons {α : Type} {first second before after : List α} {a : α}
    (h : first ++ second = before ++ a :: after) :
    (∃ rest, first = before ++ a :: rest ∧ after = rest ++ second) ∨
      ∃ rest, before = first ++ rest ∧ second = rest ++ a :: after := by
  rcases List.append_eq_append_iff.1 h with ⟨rest, hbefore, hsecond⟩ | ⟨rest, hfirst, hcons⟩
  · exact .inr ⟨rest, hbefore, hsecond⟩
  · rcases List.cons_eq_append_iff.1 hcons with ⟨rfl, hsecond⟩ | ⟨rest', rfl, hafter⟩
    · exact .inr ⟨[], by simpa using hfirst.symm, hsecond⟩
    · exact .inl ⟨rest', hfirst, hafter⟩

theorem Closed.append (h : Closed opener after) (more : List Token) :
    Closed opener (after ++ more) := by
  obtain ⟨inner, closer, rest, rfl, hinner, hpair⟩ := h
  exact ⟨inner, closer, rest ++ more, by simp, hinner, hpair⟩

/-- An opening bracket of a balanced word is closed within it. -/
theorem Balanced.closed (h : Balanced word) (hword : word = before ++ opener :: after)
    (hopens : opener.kind.opens = true) : Closed opener after := by
  induction h generalizing before after with
  | nil => simp at hword
  | @wrap opening closing inner hpair hinner ih =>
    rcases List.cons_eq_append_iff.1 hword with ⟨rfl, heq⟩ | ⟨before', rfl, hword'⟩
    · obtain ⟨rfl, rfl⟩ := List.cons.inj heq
      exact ⟨inner, closing, [], rfl, hinner, hpair⟩
    · rcases append_eq_append_cons hword' with ⟨rest, hinside, rfl⟩ | ⟨rest, -, hclosing⟩
      · exact (ih hinside).append [closing]
      · -- the closing bracket opens nothing
        obtain ⟨-, hcons⟩ := List.append_eq_singleton_iff.1 hclosing.symm |>.resolve_right (by simp)
        obtain ⟨rfl, -⟩ := List.cons.inj hcons
        simp [(TokenKind.opens_of_opener? hpair).2] at hopens
  | append _ _ ih ih' =>
    rcases append_eq_append_cons hword with ⟨rest, hfirst, rfl⟩ | ⟨rest, -, hsecond⟩
    · exact (ih hfirst).append _
    · exact ih' hsecond

/-! ## Open brackets -/

theorem Opened.append (h : Opened openers word) (h' : Balanced word') :
    Opened openers (word ++ word') := by
  cases h with
  | closed h => exact .closed (h.append h')
  | @opened openers before h opener hopens inner hinner =>
    rw [List.append_assoc, List.cons_append]
    exact .opened h hopens (hinner.append h')

theorem Opened.height_eq (h : Opened openers word) : height word = openers.length := by
  induction h with
  | closed h => simpa using h.height_eq
  | opened _ hopens hinner ih =>
    simp [ih, depth_of_opens hopens, hinner.height_eq]

theorem Opened.height_take_nonneg (h : Opened openers word) (n : Nat) :
    0 ≤ height (word.take n) := by
  induction h generalizing n with
  | closed h => exact h.height_take_nonneg n
  | @opened openers before _ opener hopens inner hinner ih =>
    rw [List.take_append, height_append]
    refine Int.add_nonneg (ih n) ?_
    rcases n - before.length with _ | m
    · simp
    · rw [List.take_succ_cons, height_cons, depth_of_opens hopens]
      have := hinner.height_take_nonneg m
      omega

theorem Opened.height_left_nonneg (h : Opened openers (word ++ word')) : 0 ≤ height word := by
  simpa using h.height_take_nonneg word.length

/-- The open brackets are closed by as many more. -/
theorem Opened.exists_balanced (h : Opened openers word) (h' : Balanced word') :
    ∃ more, Balanced (word ++ word' ++ more) := by
  induction h generalizing word' with
  | closed h => exact ⟨[], by simpa using h.append h'⟩
  | @opened openers before _ opener hopens inner hinner ih =>
    obtain ⟨closer, hpair⟩ : ∃ closer : Token, closer.kind.opener? = some opener.kind := by
      cases hkind : opener.kind <;> rw [hkind] at hopens <;> try simp [TokenKind.opens] at hopens
      · exact ⟨.synthetic .rightParen 1 1, rfl⟩
      · exact ⟨.synthetic .rightBracket 1 1, rfl⟩
    obtain ⟨more, hmore⟩ := ih (.wrap hpair (hinner.append h'))
    exact ⟨closer :: more, by simpa using hmore⟩

/-- The innermost open bracket of a word is the first of the open ones. -/
theorem Opened.isInnermost_iff (h : Opened openers word) :
    IsInnermost word opener ↔ openers.head? = some opener := by
  cases h with
  | closed h => simp [h.not_isInnermost]
  | @opened openers before h first hopens inner hinner =>
    refine ⟨?_, fun hhead => ?_⟩
    · rintro ⟨outer, inner', hword, hopens', hinner'⟩
      rcases append_eq_append_cons hword with ⟨rest, hbefore, hrest⟩ | ⟨rest, rfl, hrest⟩
      · -- the first one would not be closed before the end
        exact absurd ⟨rest, inner, hrest, hopens, hinner⟩ hinner'.not_isInnermost
      · rcases List.cons_eq_append_iff.1 hrest with ⟨-, heq⟩ | ⟨rest', -, hinside⟩
        · exact congrArg some (List.cons.inj heq).1.symm
        · exact absurd ⟨rest', inner', hinside, hopens', hinner'⟩ hinner.not_isInnermost
    · obtain rfl : first = opener := by simpa using hhead
      exact ⟨before, inner, rfl, hopens, hinner⟩

/-- A closing bracket is refused if it does not fit. -/
theorem Opened.nest?_eq_none_iff (h : Opened openers word) :
    t.nest? openers = none ↔ Misfits word t := by
  rw [Token.nest?_eq, Misfits]
  simp only [h.isInnermost_iff]
  by_cases hopens : t.kind.opens = true
  · have hnone : t.kind.opener? = none := by
      by_contra hne
      obtain ⟨opening, hpair⟩ := Option.ne_none_iff_exists'.1 hne
      simp [(TokenKind.opens_of_opener? hpair).2] at hopens
    simp [hopens, hnone]
  · rcases hpair : t.kind.opener? with _ | opening <;> rcases openers with _ | ⟨first, outer⟩ <;>
      simp [hopens]

/-- The open brackets after a token. -/
theorem Opened.nest? (h : Opened openers word) (hnest : t.nest? openers = some openers') :
    Opened openers' (word ++ brackets [t]) := by
  rw [Token.nest?_eq] at hnest
  by_cases hopens : t.kind.opens = true
  · rw [if_pos hopens] at hnest
    obtain rfl := Option.some.inj hnest
    have hbracket : brackets [t] = [t] := by simp [brackets, Token.isBracket, hopens]
    rw [hbracket]
    exact .opened h hopens .nil
  · rw [if_neg hopens] at hnest
    rcases hpair : t.kind.opener? with _ | opening
    · have hbracket : brackets [t] = [] := by simp [brackets, Token.isBracket, hopens, hpair]
      rw [hpair] at hnest
      obtain rfl : openers = openers' := by cases openers <;> simpa using hnest
      simpa [hbracket] using h
    · have hbracket : brackets [t] = [t] := by simp [brackets, Token.isBracket, hpair]
      rw [hpair] at hnest
      cases h with
      | closed h => simp at hnest
      | @opened openers before h first hfirst inner hinner =>
        obtain ⟨hkind, rfl⟩ : first.kind = opening ∧ openers = openers' := by simpa using hnest
        rw [hbracket, List.append_assoc, List.cons_append]
        exact h.append (.wrap (hkind ▸ hpair) hinner)

/-- The outermost open bracket : what comes before it is balanced, and it is not closed. -/
theorem Opened.outermost (h : Opened openers word) (hlast : openers.getLast? = some opener) :
    ∃ before after, word = before ++ opener :: after ∧ opener.kind.opens = true ∧
      Balanced before ∧ ∃ openers, Opened openers after := by
  induction h with
  | closed => simp at hlast
  | @opened openers before h first hopens inner hinner ih =>
    rcases hrest : openers.getLast? with _ | last
    · obtain rfl := List.getLast?_eq_none_iff.1 hrest
      obtain rfl : first = opener := by simpa using hlast
      cases h with
      | closed h => exact ⟨before, inner, rfl, hopens, h, [], .closed hinner⟩
    · obtain rfl : last = opener := by simpa [List.getLast?_cons, hrest] using hlast
      obtain ⟨before', after, rfl, hopens', hbefore, openers', hafter⟩ := ih hrest
      exact ⟨before', after ++ first :: inner, by simp, hopens', hbefore, _,
        .opened hafter hopens hinner⟩

/-- A bracket after which others are open is not closed among them. -/
theorem Opened.not_closed (h : Opened openers after) : ¬Closed opener after := by
  rintro ⟨inner, closer, rest, rfl, hinner, hpair⟩
  rw [← List.singleton_append, ← List.append_assoc] at h
  have hleft := h.height_left_nonneg
  simp [hinner.height_eq, depth_of_opener? hpair] at hleft

/-! ## Readings -/

/-- The open brackets after some tokens, if all of them fit. -/
def nestAll? (openers tokens : List Token) : Option (List Token) :=
  tokens.foldlM (fun openers t => t.nest? openers) openers

@[simp] theorem nestAll?_nil (openers : List Token) : nestAll? openers [] = some openers := rfl

@[simp] theorem nestAll?_cons (openers tokens : List Token) (t : Token) :
    nestAll? openers (t :: tokens) = (t.nest? openers).bind fun openers =>
      nestAll? openers tokens :=
  rfl

theorem nestAll?_append (openers tokens tokens' : List Token) :
    nestAll? openers (tokens ++ tokens') =
      (nestAll? openers tokens).bind fun openers => nestAll? openers tokens' :=
  List.foldlM_append

theorem nest?_of_not_isBracket (h : t.isBracket = false) (openers : List Token) :
    t.nest? openers = some openers := by
  obtain ⟨hopens, hcloses⟩ : t.kind.opens = false ∧ t.kind.opener? = none := by
    simpa [Token.isBracket] using h
  rw [Token.nest?_eq, hopens, hcloses]
  cases openers <;> rfl

theorem brackets_cons (t : Token) (tokens : List Token) :
    brackets (t :: tokens) = brackets [t] ++ brackets tokens := by
  rw [brackets, ← List.singleton_append, List.filter_append]
  rfl

theorem Opened.nestAll? (h : Opened openers word)
    (hnest : nestAll? openers tokens = some openers') :
    Opened openers' (word ++ brackets tokens) := by
  induction tokens generalizing openers word with
  | nil =>
    obtain rfl : openers = openers' := by simpa using hnest
    simpa [brackets] using h
  | cons t tokens ih =>
    rw [nestAll?_cons] at hnest
    obtain ⟨next, hnext, hrest⟩ := Option.bind_eq_some_iff.1 hnest
    have := ih (h.nest? hnext) hrest
    rwa [List.append_assoc, ← brackets_cons] at this

theorem opened_of_nestAll? (hnest : nestAll? [] tokens = some openers) :
    Opened openers (brackets tokens) :=
  (Opened.closed .nil).nestAll? hnest

theorem Balanced.nestAll? (h : Balanced word) (openers : List Token) :
    nestAll? openers word = some openers := by
  induction h generalizing openers with
  | nil => rfl
  | @wrap opening closing inner hpair _ ih =>
    obtain ⟨hopens, hcloses⟩ := TokenKind.opens_of_opener? hpair
    have hopen : opening.nest? openers = some (opening :: openers) := by
      rw [Token.nest?_eq, if_pos hopens]
    have hclose : closing.nest? (opening :: openers) = some openers := by
      rw [Token.nest?_eq, hcloses, hpair]
      simp
    simp [hopen, hclose, nestAll?_append, ih]
  | append _ _ ih ih' => simp [nestAll?_append, ih, ih']

theorem nestAll?_brackets (openers tokens : List Token) :
    nestAll? openers (brackets tokens) = nestAll? openers tokens := by
  induction tokens generalizing openers with
  | nil => rfl
  | cons t tokens ih =>
    cases hbracket : t.isBracket with
    | true =>
      rw [brackets, List.filter_cons_of_pos hbracket, nestAll?_cons, nestAll?_cons]
      exact Option.bind_congr fun _ _ => ih _
    | false =>
      rw [brackets, List.filter_cons_of_neg (by simp [hbracket]), nestAll?_cons,
        nest?_of_not_isBracket hbracket]
      exact ih openers

/-- Where all brackets fit, none is a misfit. -/
theorem not_misfits_of_nestAll? (hnest : nestAll? [] tokens = some openers)
    (hword : brackets tokens = before ++ t :: after) : ¬Misfits before t := by
  have hbefore : brackets before = before := by
    refine List.filter_eq_self.2 fun t' ht' => ?_
    have hmem : t' ∈ brackets tokens := hword ▸ List.mem_append_left _ ht'
    exact (List.mem_filter.1 hmem).2
  rw [← nestAll?_brackets, hword, nestAll?_append] at hnest
  obtain ⟨inside, hinside, hrest⟩ := Option.bind_eq_some_iff.1 hnest
  rw [nestAll?_cons] at hrest
  obtain ⟨next, hnext, -⟩ := Option.bind_eq_some_iff.1 hrest
  have hopened := opened_of_nestAll? hinside
  rw [hbefore] at hopened
  rw [← hopened.nest?_eq_none_iff, hnext]
  simp

theorem FirstMisfit.nestAll?_eq_none (h : FirstMisfit (brackets tokens) before t) :
    nestAll? [] tokens = none := by
  obtain ⟨⟨after, hword⟩, hmisfits, -⟩ := h
  by_contra hne
  obtain ⟨openers, hnest⟩ := Option.ne_none_iff_exists'.1 hne
  exact not_misfits_of_nestAll? hnest hword hmisfits

theorem FirstMisfit.unique {before' : List Token} {t' : Token} (h : FirstMisfit word before t)
    (h' : FirstMisfit word before' t') : t = t' := by
  obtain ⟨⟨after, rfl⟩, hmisfits, hfirst⟩ := h
  obtain ⟨⟨after', hword⟩, hmisfits', hfirst'⟩ := h'
  rcases append_eq_append_cons hword with ⟨rest, hbefore, -⟩ | ⟨rest, rfl, hrest⟩
  · exact absurd hmisfits' (hfirst _ _ _ hbefore)
  · rcases List.cons_eq_append_iff.1 hrest with ⟨-, heq⟩ | ⟨rest', rfl, -⟩
    · exact (List.cons.inj heq).1.symm
    · exact absurd hmisfits (hfirst' _ _ _ rfl)

namespace Reading

variable {fault fault' : Option Blame}

theorem checkFrom_of_some (h : nestAll? openers tokens = some openers') :
    checkFrom fault openers tokens =
      { tokens, fault := fault.or (openers'.getLast?.map fun opener =>
          { cause := .unclosed opener.text, token := opener }) } := by
  induction tokens generalizing openers with
  | nil =>
    obtain rfl : openers = openers' := by simpa using h
    rfl
  | cons t tokens ih =>
    rw [nestAll?_cons] at h
    obtain ⟨next, hnext, hrest⟩ := Option.bind_eq_some_iff.1 h
    rw [checkFrom, hnext]
    exact congrArg (Reading.cons t) (ih hrest)

theorem checkFrom_of_none (h : nestAll? openers tokens = none) :
    ∃ before t after openers', tokens = before ++ t :: after ∧
      nestAll? openers before = some openers' ∧ t.nest? openers' = none ∧
      checkFrom fault openers tokens =
        { tokens := before, fault := some { cause := .extraneous t.text, token := t } } := by
  induction tokens generalizing openers with
  | nil => simp at h
  | cons t tokens ih =>
    rcases hnest : t.nest? openers with _ | next
    · exact ⟨[], t, tokens, openers, rfl, rfl, hnest, by rw [checkFrom, hnest]; rfl⟩
    · rw [nestAll?_cons, hnest] at h
      obtain ⟨before, t', after, openers', rfl, hbefore, hnone, hcheck⟩ := ih h
      refine ⟨t :: before, t', after, openers', rfl, ?_, hnone, ?_⟩
      · rw [nestAll?_cons, hnest]
        exact hbefore
      · rw [checkFrom, hnest]
        exact congrArg (Reading.cons t) hcheck

/-- Brackets that do not all fit : what is wrong is the first one that does not. -/
theorem check_of_none {r : Reading} (h : nestAll? [] r.tokens = none) :
    ∃ before t openers, FirstMisfit (brackets r.tokens) (brackets before) t ∧
      Opened openers (brackets before) ∧
      r.check [] =
        { tokens := before, fault := some { cause := .extraneous t.text, token := t } } := by
  obtain ⟨before, t, after, openers, happ, hbefore, hnone, hcheck⟩ := checkFrom_of_none h
  have hopened := opened_of_nestAll? hbefore
  have hmisfits : Misfits (brackets before) t := hopened.nest?_eq_none_iff.1 hnone
  have hbracket : brackets [t] = [t] := by
    obtain ⟨opening, hpair, -⟩ := hmisfits
    simp [brackets, Token.isBracket, hpair]
  refine ⟨before, t, openers, ⟨⟨brackets after, ?_⟩, hmisfits, fun earlier t' between hword => ?_⟩,
    hopened, hcheck⟩
  · rw [happ, brackets, List.filter_append]
    exact congrArg _ ((brackets_cons t after).trans (congrArg (· ++ _) hbracket))
  · exact not_misfits_of_nestAll? hbefore hword

/-- Brackets that all fit : they are balanced, or the first one that is not closed is wrong. -/
theorem check_of_some {r : Reading} (h : nestAll? [] r.tokens = some openers) :
    r.check [] = { r with fault := r.fault.or (openers.getLast?.map fun opener =>
      { cause := .unclosed opener.text, token := opener }) } :=
  checkFrom_of_some h

/-- What is wrong with the check depends on the brackets and on what is wrong without them. -/
theorem checkFrom_brackets (openers tokens : List Token) :
    (checkFrom fault openers (brackets tokens)).fault = (checkFrom fault openers tokens).fault := by
  induction tokens generalizing openers with
  | nil => rfl
  | cons t tokens ih =>
    cases hbracket : t.isBracket with
    | true =>
      rw [brackets, List.filter_cons_of_pos hbracket, checkFrom, checkFrom]
      cases t.nest? openers with
      | none => rfl
      | some next => exact ih next
    | false =>
      rw [brackets, List.filter_cons_of_neg (by simp [hbracket]), checkFrom,
        nest?_of_not_isBracket hbracket]
      exact ih openers

theorem nest?_sign {t' : Token} (ht : t.sign = t'.sign)
    (hopeners : openers.map Token.sign = openers'.map Token.sign) :
    (t.nest? openers).map (List.map Token.sign) =
      (t'.nest? openers').map (List.map Token.sign) := by
  have hkind : t.kind = t'.kind := congrArg Prod.fst ht
  rw [Token.nest?_eq, Token.nest?_eq, hkind]
  split
  · simp [ht, hopeners]
  · rcases t'.kind.opener? with _ | opening
    · simp [hopeners]
    · rcases openers with _ | ⟨first, outer⟩ <;> rcases openers' with _ | ⟨first', outer'⟩ <;>
        simp only [List.map_nil, List.map_cons, List.cons.injEq, reduceCtorEq] at hopeners
      · rfl
      · have hfirst : first.kind = first'.kind := congrArg Prod.fst hopeners.1
        dsimp only
        rw [hfirst]
        split
        · exact congrArg some hopeners.2
        · rfl

/-- Where brackets stand makes no difference to what is wrong. -/
theorem checkFrom_sign {tokens' : List Token}
    (hfault : fault.map Blame.cause = fault'.map Blame.cause)
    (hopeners : openers.map Token.sign = openers'.map Token.sign)
    (htokens : tokens.map Token.sign = tokens'.map Token.sign) :
    (checkFrom fault openers tokens).fault.map Blame.cause =
      (checkFrom fault' openers' tokens').fault.map Blame.cause := by
  induction tokens generalizing openers openers' tokens' with
  | nil =>
    obtain rfl : tokens' = [] := by simpa using htokens.symm
    have hlast : openers.getLast?.map (fun opener => Cause.unclosed opener.text) =
        openers'.getLast?.map fun opener => Cause.unclosed opener.text := by
      have := congrArg (fun signs => signs.getLast?.map fun sign => Cause.unclosed sign.2) hopeners
      simpa [Function.comp_def, Token.sign] using this
    simp only [checkFrom, Option.map_or, Option.map_map, Function.comp_def, hfault, hlast]
  | cons t tokens ih =>
    obtain ⟨t', rest, rfl, ht, hrest⟩ := List.map_eq_cons_iff.1 htokens.symm
    have hnest := nest?_sign ht.symm hopeners
    rw [checkFrom, checkFrom]
    rcases hstep : t.nest? openers with _ | next <;>
      rcases hstep' : t'.nest? openers' with _ | next' <;> rw [hstep, hstep'] at hnest <;>
      simp only [Option.map_none, Option.map_some, reduceCtorEq, Option.some.injEq] at hnest
    · have htext : t'.text = t.text := congrArg Prod.snd ht
      simp [faulty, htext]
    · exact ih hnest hrest.symm

theorem check_sign {r r' : Reading} (hfault : r.fault.map Blame.cause = r'.fault.map Blame.cause)
    (hbrackets : (brackets r.tokens).map Token.sign = (brackets r'.tokens).map Token.sign) :
    (r.check []).fault.map Blame.cause = (r'.check []).fault.map Blame.cause := by
  rw [check, check, ← checkFrom_brackets [] r.tokens, ← checkFrom_brackets [] r'.tokens]
  exact checkFrom_sign hfault rfl hbrackets

/-- What is wrong without brackets is no bracket. -/
theorem ofLine_fault {tab : TabStop} {number : Nat} {column : UInt64} {text : List Char}
    {blame : Blame} (h : (ofLine tab number column text).fault = some blame) (bracket : String) :
    blame.cause ≠ .extraneous bracket := by
  fun_induction ofLine tab number column text with
  | case1 => simp [empty] at h
  | case2 _ _ _ _ ih => exact ih h
  | case3 =>
    obtain rfl := Option.some.inj h
    simp
  | case4 =>
    obtain rfl := Option.some.inj h
    simp
  | case5 => rename_i ih; exact ih h

theorem append_fault {r r' : Reading} {blame : Blame} (h : (r.append r').fault = some blame) :
    r.fault = some blame ∨ r'.fault = some blame := by
  unfold append at h
  split at h
  · exact .inl h
  · exact .inr h

theorem ofLines_fault {tab : TabStop} {number : Nat} {lines : List (List Char)} {blame : Blame}
    (h : (ofLines tab number lines).fault = some blame) (bracket : String) :
    blame.cause ≠ .extraneous bracket := by
  induction lines generalizing number with
  | nil => simp [ofLines, empty] at h
  | cons line more ih => exact (append_fault h).elim (fun h => ofLine_fault h bracket) ih

end Reading

end

/-- The cause of an error at a place of a script. -/
def ScriptError.cause? : ScriptError → Option Cause
  | located d => some d.cause
  | _ => none

namespace Lexer

theorem Gives.failure_cause {lexer : Lexer} {c : Reading} {lacks : Bool} (h : lexer.Gives c lacks) :
    lexer.toEnd.failure.map ScriptError.cause? = c.fault.map fun blame => some blame.cause := by
  rw [h.failure_eq, Option.map_map]
  rfl

/-- The brackets of a scan are those of the checked reading. -/
theorem Gives.brackets_eq {lexer : Lexer} {c : Reading} {lacks : Bool} (h : lexer.Gives c lacks) :
    brackets lexer.toEnd.tokens = brackets c.tokens := by
  obtain ⟨-, newline, mark, hnewline, hmark, htokens⟩ := h
  rw [htokens, brackets, List.filter_append, brackets, List.append_right_eq_self]
  have hclosing : newline.isBracket = false ∧ mark.isBracket = false := by
    simp [Token.isBracket, hnewline, hmark, TokenKind.opens, TokenKind.opener?]
  split
  · rfl
  · split <;> simp [hclosing]

section

variable {name text : String} {tab : TabStop} {openers before : List Token} {t : Token}
  {d : Diagnostic}

/-- The brackets that a lexer gives are those of a reading up to the first misfit. -/
theorem exists_opened (name text : String) (tab : TabStop) :
    ∃ openers, Opened openers (brackets (ofSource (.ofText name text tab)).toEnd.tokens) := by
  rw [(gives_ofText name text tab).brackets_eq]
  rcases hnest : nestAll? [] (Reading.ofText text tab).tokens with _ | openers
  · obtain ⟨before, t, openers, -, hopened, hcheck⟩ := Reading.check_of_none hnest
    exact ⟨openers, hcheck ▸ hopened⟩
  · exact ⟨openers, Reading.check_of_some hnest ▸ opened_of_nestAll? hnest⟩

/-- A lexer fails at the first misfit. -/
theorem failure_of_firstMisfit
    (h : FirstMisfit (brackets (Reading.ofText text tab).tokens) before t) :
    let scan := (ofSource (.ofText name text tab)).toEnd
    scan.failure = some (.located (scan.final.blame (.extraneous t.text) t)) := by
  intro scan
  obtain ⟨before', t', -, hfirst, -, hcheck⟩ := Reading.check_of_none h.nestAll?_eq_none
  obtain rfl := h.unique hfirst
  have hfailure := (gives_ofText name text tab).failure_eq
  rw [hcheck] at hfailure
  exact hfailure

/-- A lexer that fails because of a closing bracket fails at the first misfit. -/
theorem firstMisfit_of_failure {bracket : String}
    (h : (ofSource (.ofText name text tab)).toEnd.failure = some (.located d))
    (hcause : d.cause = .extraneous bracket) :
    ∃ before t, FirstMisfit (brackets (Reading.ofText text tab).tokens) before t := by
  rcases hnest : nestAll? [] (Reading.ofText text tab).tokens with _ | openers
  · obtain ⟨before, t, -, hfirst, -⟩ := Reading.check_of_none hnest
    exact ⟨_, t, hfirst⟩
  · have hfailure := (gives_ofText name text tab).failure_eq
    rw [h, Reading.check_of_some hnest] at hfailure
    obtain ⟨blame, hblame, hd⟩ := Option.map_eq_some_iff.1 hfailure.symm
    obtain rfl : _ = d := by simpa using hd
    rcases Option.or_eq_some_iff.1 hblame with hfault | ⟨-, hunclosed⟩
    · exact absurd hcause (Reading.ofLines_fault hfault bracket)
    · obtain ⟨opener, -, rfl⟩ := Option.map_eq_some_iff.1 hunclosed
      simp [blame] at hcause

/-- A lexer does not fail if it can read the text and the brackets are balanced. -/
theorem failure_eq_none_iff :
    (ofSource (.ofText name text tab)).toEnd.failure = none ↔
      (Reading.ofText text tab).fault = none ∧
        Balanced (brackets (Reading.ofText text tab).tokens) := by
  rw [(gives_ofText name text tab).failure_eq, Option.map_eq_none_iff]
  rcases hnest : nestAll? [] (Reading.ofText text tab).tokens with _ | openers
  · obtain ⟨before, t, -, hfirst, -, hcheck⟩ := Reading.check_of_none hnest
    rw [hcheck]
    refine iff_of_false (by simp) ?_
    rintro ⟨-, hbalanced⟩
    rw [← nestAll?_brackets, hbalanced.nestAll?] at hnest
    simp at hnest
  · rw [Reading.check_of_some hnest]
    have hopened := opened_of_nestAll? hnest
    simp only [Option.or_eq_none_iff, Option.map_eq_none_iff, List.getLast?_eq_none_iff]
    refine and_congr_right fun _ => ⟨?_, fun hbalanced => ?_⟩
    · rintro rfl
      cases hopened with
      | closed h => exact h
    · rw [← nestAll?_brackets, hbalanced.nestAll?] at hnest
      exact (Option.some.inj hnest).symm

/-- A lexer fails at the first bracket that is not closed, if it can read the text and there is
no misfit. -/
theorem failure_of_unclosed (name : String) (hfault : (Reading.ofText text tab).fault = none)
    (hfits : ∀ before t, ¬FirstMisfit (brackets (Reading.ofText text tab).tokens) before t)
    (hbalanced : ¬Balanced (brackets (Reading.ofText text tab).tokens)) :
    let scan := (ofSource (.ofText name text tab)).toEnd
    ∃ before opener after, brackets (Reading.ofText text tab).tokens = before ++ opener :: after ∧
      opener.kind.opens = true ∧ ¬Closed opener after ∧ Balanced before ∧
      scan.failure = some (.located (scan.final.blame (.unclosed opener.text) opener)) := by
  intro scan
  rcases hnest : nestAll? [] (Reading.ofText text tab).tokens with _ | openers
  · obtain ⟨before, t, -, hfirst, -⟩ := Reading.check_of_none hnest
    exact absurd hfirst (hfits _ t)
  · have hopened := opened_of_nestAll? hnest
    rcases hlast : openers.getLast? with _ | opener
    · obtain rfl := List.getLast?_eq_none_iff.1 hlast
      cases hopened with
      | closed h => exact absurd h hbalanced
    · obtain ⟨before, after, hword, hopens, hbefore, openers', hafter⟩ := hopened.outermost hlast
      refine ⟨before, opener, after, hword, hopens, hafter.not_closed, hbefore, ?_⟩
      have hfailure := (gives_ofText name text tab).failure_eq
      rw [Reading.check_of_some hnest, hfault, hlast] at hfailure
      exact hfailure

end

/-- The brackets that a lexer gives begin a balanced word. It fails because of a closing bracket
exactly if one does not fit, at the first of them. The end marker comes exactly if the text can
be read and its brackets are balanced. If it can be read and every closing bracket fits, the
lexer fails at the first opening bracket that is not closed. Nothing but the brackets, which
braces are not, and what is wrong without them have any bearing on the outcome. -/
theorem toEnd_nesting (name text : String) (tab : TabStop) :
    let scan := (ofSource (.ofText name text tab)).toEnd
    let reading := Reading.ofText text tab
    let word := brackets reading.tokens
    (∃ more, Balanced (brackets scan.tokens ++ more)) ∧
    (∀ d, (scan.failure = some (.located d) ∧ ∃ bracket, d.cause = .extraneous bracket) ↔
      ∃ before t, FirstMisfit word before t ∧ d = scan.final.blame (.extraneous t.text) t) ∧
    ((∃ mark ∈ scan.tokens, mark.kind = .endMarker) ↔ reading.fault = none ∧ Balanced word) ∧
    (reading.fault = none → (∀ before t, ¬FirstMisfit word before t) → ¬Balanced word →
      ∃ before opener after, word = before ++ opener :: after ∧ opener.kind.opens = true ∧
        ¬Closed opener after ∧
        (∀ earlier opener' between, before = earlier ++ opener' :: between →
          opener'.kind.opens = true → Closed opener' (between ++ opener :: after)) ∧
        scan.failure = some (.located (scan.final.blame (.unclosed opener.text) opener))) ∧
    ∀ name' text' tab',
      (brackets (Reading.ofText text' tab').tokens).map Token.sign = word.map Token.sign →
      (Reading.ofText text' tab').fault.map Blame.cause = reading.fault.map Blame.cause →
      (ofSource (.ofText name' text' tab')).toEnd.failure.map ScriptError.cause? =
        scan.failure.map ScriptError.cause? := by
  intro scan reading word
  refine ⟨?_, fun d => ⟨?_, ?_⟩, endMarker_mem_tokens_iff.trans failure_eq_none_iff,
    fun hfault hfits hbalanced => ?_, fun name' text' tab' hsign hfault => ?_⟩
  · obtain ⟨openers, hopened⟩ := exists_opened name text tab
    simpa using hopened.exists_balanced .nil
  · rintro ⟨hfailure, bracket, hcause⟩
    obtain ⟨before, t, hfirst⟩ := firstMisfit_of_failure hfailure hcause
    have hmisfit : scan.failure = some (.located (scan.final.blame (.extraneous t.text) t)) :=
      failure_of_firstMisfit hfirst
    exact ⟨before, t, hfirst, by simpa using hfailure.symm.trans hmisfit⟩
  · rintro ⟨before, t, hfirst, rfl⟩
    exact ⟨failure_of_firstMisfit hfirst, t.text, rfl⟩
  · obtain ⟨before, opener, after, hword, hopens, hunclosed, hbefore, hfailure⟩ :=
      failure_of_unclosed name hfault hfits hbalanced
    refine ⟨before, opener, after, hword, hopens, hunclosed,
      fun earlier opener' between hearlier hopens' => ?_, hfailure⟩
    exact (hbefore.closed hearlier hopens').append _
  · rw [(gives_ofText name' text' tab').failure_cause, (gives_ofText name text tab).failure_cause]
    have hcause := congrArg (Option.map some) (Reading.check_sign hfault hsign)
    simpa [Function.comp_def] using hcause

/-- A parenthesis after a square bracket, with braces around both. -/
theorem toEnd_nesting_misfit :
    let scan := (ofSource (.ofText "" "\x7b([x)\x7d")).toEnd
    (∃ d, scan.failure = some (.located d) ∧ d.cause = .extraneous ")") ∧
      ∃ before t, FirstMisfit (brackets (Reading.ofText "\x7b([x)\x7d" default).tokens)
        before t := by
  intro scan
  have hfailure : (ofSource (.ofText "" "\x7b([x)\x7d")).toEnd.failure = some (.located
      { cause := .extraneous ")", source := "", line := 1, startColumn := 5, endColumn := 6,
        text := ")", context := some "\x7b([x)\x7d" }) := by decide +kernel
  obtain ⟨-, hextraneous, -⟩ := toEnd_nesting "" "\x7b([x)\x7d" default
  obtain ⟨before, t, hfirst, -⟩ := (hextraneous _).1 ⟨hfailure, ")", rfl⟩
  exact ⟨⟨_, hfailure, rfl⟩, before, t, hfirst⟩

end Lexer

end OpticScript
