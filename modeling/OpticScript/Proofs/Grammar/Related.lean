import OpticScript.Grammar
import OpticScript.Proofs.Packrat.Likeness

/-!
# Parses of tokens that are related

The script grammar tells tokens apart by their kinds, by whether two numbers run together,
and, unless they are newlines, by what they say (`Token.Indistinct`). Parses of tokens that
are related by something it cannot see have the same matches, and the tokens that a match
or a complaint keeps are related (`relating`, `scriptGrammar_related`). A complaint has one
of a few causes (`Cause.Grammatical`), and a newline is never to blame.
-/

namespace OpticScript

open Packrat

/-- What the grammar finds wrong with a line. -/
inductive Cause.Grammatical : Cause → Prop
  | missingValue : Grammatical .missingValue
  | leadingZeros : Grammatical .leadingZeros
  | invalidNumberForm : Grammatical .invalidNumberForm
  | surfaceWithoutCommand : Grammatical .surfaceWithoutCommand

/-- A relation of tokens that the script grammar does not see. -/
structure Token.Indistinct (R : Token → Token → Prop) : Prop where
  kind_eq : ∀ {t t'}, R t t' → t'.kind = t.kind
  text_eq : ∀ {t t'}, R t t' → t.kind ≠ .newline → t'.text = t.text
  literal_eq : ∀ {t t'}, R t t' → t.kind ≠ .newline → t'.literal = t.literal
  adjoins_eq : ∀ {first first' second second'}, R first first' → R second second' →
    first.kind = .number → second.kind = .number → first'.adjoins second' = first.adjoins second

section

variable (R : Token → Token → Prop)

/-- Complaints with the same cause at tokens that are related. -/
structure Blame.Related (blame blame' : Blame) : Prop where
  cause_eq : blame'.cause = blame.cause
  grammatical : blame.cause.Grammatical
  token : R blame.token blame'.token
  kind_ne : blame.token.kind ≠ .newline ∧ blame.token.kind ≠ .endMarker

/-- The same statements, whose plus signs are related. -/
inductive Statement.Related : Statement → Statement → Prop
  | primary (command : Command) : Related (.primary command) (.primary command)
  | secondary (surface : Parameters) {marker marker' : Token} (h : R marker marker')
      (hplus : marker.kind = .plus) : Related (.secondary surface marker)
        (.secondary surface marker')

/-- The same lines, whose plus signs are related. -/
inductive Line.Related : Line → Line → Prop
  | blank : Related .blank .blank
  | statement {s s' : Statement} (h : s.Related R s') : Related (.statement s) (.statement s')

/-- The same matches, whose tokens are related. -/
def Rule.Related : (r : Rule) → r.Result → r.Result → Prop
  | .token kind, t, t' => R t t' ∧ t.kind = kind
  | .scriptLine, line, line' => line.Related R line'
  | .command, s, s' => s.Related R s'
  | .brokenNumber, b, b' => b.Related R b'
  | .commandParams, a, a' => a' = a
  | .valueList, a, a' => a' = a
  | .nextValue, a, a' => a' = a
  | .keywordList, a, a' => a' = a
  | .positionalValue, a, a' => a' = a
  | .value, a, a' => a' = a
  | .keyValue, a, a' => a' = a
  | .action, a, a' => a' = a
  | .sum, a, a' => a' = a
  | .product, a, a' => a' = a
  | .signed, a, a' => a' = a
  | .power, a, a' => a' = a
  | .operand, a, a' => a' = a

/-- Parses of tokens that are related, in which errors of the lexer are related too. -/
def relating (E : ScriptError → ScriptError → Prop) :
    Likeness Rule Rule.Result Token Blame ScriptError where
  item := R
  result := Rule.Related R
  complaint := Blame.Related R
  error := E

end

theorem eq_of_forall₂ {α : Type} {as as' : List α} (h : List.Forall₂ (fun a a' => a' = a) as as') :
    as' = as := by
  induction h with
  | nil => rfl
  | cons h _ ih => rw [h, ih]

theorem eq_of_rel {α : Type} {a a' : Option α} (h : Option.Rel (fun a a' => a' = a) a a') :
    a' = a := by
  cases h with
  | some h => rw [h]
  | none => rfl

theorem isEmpty_of_forall₂ {α : Type} {R : α → α → Prop} {as as' : List α}
    (h : List.Forall₂ R as as') : as'.isEmpty = as.isEmpty := by
  cases h <;> rfl

namespace Token.Indistinct

variable {R : Token → Token → Prop} (h : Token.Indistinct R)
  {t t' first first' second second' : Token}

include h

theorem number_eq (ht : R t t') (hkind : t.kind ≠ .newline) : t'.number? = t.number? := by
  rw [Token.number?, h.literal_eq ht hkind, Token.number?]

theorem contents_eq (ht : R t t') (hkind : t.kind ≠ .newline) :
    Phrase.contents t' = Phrase.contents t := by
  rw [Phrase.contents, h.literal_eq ht hkind, h.text_eq ht hkind, Phrase.contents]

theorem bothIntegers_eq (hfirst : R first first') (hsecond : R second second')
    (hkind : first.kind ≠ .newline) (hkind' : second.kind ≠ .newline) :
    first'.bothIntegers second' = first.bothIntegers second := by
  rw [Token.bothIntegers, h.number_eq hfirst hkind, h.number_eq hsecond hkind', Token.bothIntegers]

end Token.Indistinct

section

attribute [local simp] Phrase.tokenBranches Phrase.scriptLine Phrase.command
  Phrase.commandParams Phrase.valueList Phrase.nextValue Phrase.keywordList
  Phrase.positionalValue Phrase.value Phrase.keyValue Phrase.action Phrase.sum Phrase.product
  Phrase.signed Phrase.power Phrase.operand Phrase.brokenNumber Phrase.binary Phrase.bracketed
  Phrase.rule Phrase.token Phrase.optional Phrase.optionalToken Phrase.many Phrase.someTokens
  Phrase.trailingComma Phrase.notBefore Bind.bind Pure.pure Branch.bind

variable {R : Token → Token → Prop} {E : ScriptError → ScriptError → Prop}

/-- The branches of a rule do not see more of the tokens than their kinds and what they say. -/
theorem Phrase.branches_related (h : Token.Indistinct R) (r : Rule) :
    List.Forall₂ (Branch.Alike (relating R E) (Rule.Related R r)) (branches r) (branches r) := by
  cases r <;> simp [branches, relating, Rule.Related]
  case token kind =>
    exact ⟨fun t t' ht => by rw [h.kind_eq ht], fun t t' ht hkind => ⟨ht, hkind⟩⟩
  case scriptLine =>
    exact ⟨fun _ _ hs => ⟨fun _ _ _ _ => .statement hs, fun _ _ _ _ _ _ _ _ => .statement hs⟩,
      fun _ _ _ _ => .blank, fun _ _ _ _ _ _ _ _ => .blank⟩
  case command =>
    refine ⟨fun name name' hname hkind parameters => ?_,
      fun _ _ hmarker hkind _ => .secondary _ hmarker hkind⟩
    rw [h.text_eq hname (by simp [hkind])]
    exact .primary _
  case commandParams =>
    exact ⟨fun _ _ _ _ t t' ht => by rw [h.kind_eq ht], fun t t' ht => by rw [h.kind_eq ht]⟩
  case valueList => exact fun _ _ hvalues => eq_of_forall₂ hvalues
  case keywordList =>
    intro keywords commas commas' hcommas
    refine alike_require_bind (by rw [isEmpty_of_forall₂ hcommas]) fun _ => ?_
    simp [Rule.Related]
  case positionalValue =>
    intro value t t' ht
    exact alike_require_bind (by rw [h.kind_eq ht]) fun _ => .done rfl
  case keyValue =>
    intro name name' hname hkind equals equals' hequals hkind'
    refine ⟨⟨rfl, .missingValue, hequals, by simp [hkind']⟩, fun value => ?_⟩
    rw [h.text_eq hname (by simp [hkind])]
  case action =>
    refine ⟨fun left left' hleft hkind inner right right' hright hkind' => ?_,
      fun left left' hleft hkind inner right right' hright hkind' => ?_,
      fun left left' hleft hkind inner right right' hright hkind' => ?_,
      fun name name' hname hkind => ?_⟩
    · rw [h.text_eq hleft (by simp [hkind]), h.text_eq hright (by simp [hkind'])]
      refine ⟨alike_ofOption_bind rfl fun _ _ => .done rfl, fun count count' hcount hkind'' => ?_⟩
      refine alike_ofOption_bind ?_ fun _ _ => .done rfl
      rw [repeatCount?, h.number_eq hcount (by simp [hkind'']), repeatCount?]
    · rw [h.text_eq hleft (by simp [hkind]), h.text_eq hright (by simp [hkind'])]
    · rw [h.text_eq hleft (by simp [hkind]), h.text_eq hright (by simp [hkind'])]
    · rw [h.text_eq hname (by simp [hkind])]
      exact alike_require_bind rfl fun _ => .done rfl
  case operand =>
    refine ⟨fun number number' hnumber hkind t t' ht => ?_,
      fun name name' hname hkind => h.text_eq hname (by simp [hkind]),
      fun string string' hstring hkind => h.contents_eq hstring (by simp [hkind])⟩
    rw [h.number_eq hnumber (by simp [hkind])]
    refine alike_require_bind (by rw [h.kind_eq ht]) fun _ => ?_
    exact alike_ofOption_bind rfl fun _ _ => .done rfl
  case brokenNumber =>
    intro first first' hfirst hkind second second' hsecond hkind'
    rw [h.bothIntegers_eq hfirst hsecond (by simp [hkind]) (by simp [hkind']),
      h.adjoins_eq hfirst hsecond hkind hkind']
    refine alike_require_bind rfl fun _ => .done ?_
    split
    · exact ⟨rfl, .leadingZeros, hfirst, by simp [hkind]⟩
    · exact ⟨rfl, .invalidNumberForm, hsecond, by simp [hkind']⟩

end

theorem scriptGrammar_related {R : Token → Token → Prop} (h : Token.Indistinct R)
    (E : ScriptError → ScriptError → Prop) :
    (scriptGrammar true).Alike (relating R E) (scriptGrammar true) where
  branches := Phrase.branches_related h
  leaky _ := rfl
  grown _ := Iff.rfl

end OpticScript
