import Mathlib.Data.List.Forall2
import OpticScript.Lexeme
import OpticScript.Proofs.Grammar.Derivation

/-!
# Spelling with symbols

A `Symbol` is a token without its place. The symbols of an expression are those of its parts in
order, with no parentheses (`Expr.symbols`), so they spell an expression that needs none
(`Expr.Fits`) : every operand is of a tier at least as tight as the one that it stands in.

An action is spelled by words of motion codes and by groups (`SpellsAction`). No word comes right
after another one, since there would be no telling them apart; two actions one after the other
are spelled with the words between them run together (`SpellsAction.append`).

Parameters are spelled with a comma between each two, and a script line by line
(`Script.SpelledBy`).
-/

namespace OpticScript

/-- A token without its place. -/
structure Symbol where
  kind : TokenKind
  text : String
  literal : Literal

def Token.symbol (t : Token) : Symbol := { kind := t.kind, text := t.text, literal := t.literal }

namespace Symbol

/-- A symbol whose value is its own text. -/
def mark (kind : TokenKind) (text : String) : Symbol := { kind, text, literal := .text text }

def name (word : String) : Symbol := mark .name word

def number (n : Number) : Symbol := { kind := .number, text := n.render, literal := .number n }

def quoted (text : String) : Symbol :=
  { kind := .string, text := Text.quoted text, literal := .text text }

def comma : Symbol := mark .comma ","

def equals : Symbol := mark .equals "="

def newline : Symbol := mark .newline "\n"

/-- The marker of a surface line. -/
def surface : Symbol := mark .plus "+"

end Symbol

/-- The characters of symbols one after the other. -/
def spelled (symbols : List Symbol) : List Char := symbols.flatMap fun symbol => symbol.text.toList

@[simp] theorem spelled_nil : spelled [] = [] := rfl

@[simp] theorem spelled_cons (symbol : Symbol) (symbols : List Symbol) :
    spelled (symbol :: symbols) = symbol.text.toList ++ spelled symbols := rfl

@[simp] theorem spelled_append (symbols more : List Symbol) :
    spelled (symbols ++ more) = spelled symbols ++ spelled more :=
  List.flatMap_append

/-! ## Expressions -/

def Sign.kind : Sign → TokenKind
  | plus => .plus
  | minus => .minus

def Operator.kind : Operator → TokenKind
  | add => .plus
  | subtract => .minus
  | multiply => .times
  | divide => .divide
  | floorDivide => .floorDivide
  | power => .power

namespace Expr

def symbols : Expr → List Symbol
  | number value => [.number value]
  | name spelling => [.name spelling]
  | text value => [.quoted value]
  | unary sign operand => .mark sign.kind sign.symbol :: operand.symbols
  | binary operator left right => left.symbols ++ .mark operator.kind operator.symbol ::
    right.symbols

theorem toList_render (e : Expr) : e.render.toList = spelled e.symbols := by
  induction e with
  | number value => simp [render, symbols, Symbol.number]
  | name spelling => simp [render, symbols, Symbol.name, Symbol.mark]
  | text value => simp [render, symbols, Symbol.quoted]
  | unary sign operand ih => simp [render, symbols, Symbol.mark, ih]
  | binary operator left right ihl ihr => simp [render, symbols, Symbol.mark, ihl, ihr]

/-- The expression that an expression starts with : the left operand of the left operand and so
on. -/
def leftmost : Expr → Expr
  | binary _ left _ => left.leftmost
  | e => e

/-- Expressions that need no parentheses, by tiers. -/
inductive Fits : Tier → Expr → Prop
  | sum {op : Operator} {l r : Expr} (left : Fits .sum l) (hop : op = .add ∨ op = .subtract)
      (right : Fits .product r) : Fits .sum (.binary op l r)
  | ofProduct {e : Expr} (h : Fits .product e) : Fits .sum e
  | product {op : Operator} {l r : Expr} (left : Fits .product l)
      (hop : op = .multiply ∨ op = .divide ∨ op = .floorDivide) (right : Fits .signed r) :
      Fits .product (.binary op l r)
  | ofSigned {e : Expr} (h : Fits .signed e) : Fits .product e
  | signed {s : Sign} {e : Expr} (operand : Fits .signed e) : Fits .signed (.unary s e)
  | ofPower {e : Expr} (h : Fits .power e) : Fits .signed e
  | power {l r : Expr} (left : Fits .operand l) (right : Fits .signed r) :
      Fits .power (.binary .power l r)
  | ofOperand {e : Expr} (h : Fits .operand e) : Fits .power e
  | number (value : Number) : Fits .operand (.number value)
  | name (spelling : String) : Fits .operand (.name spelling)
  | text (value : String) : Fits .operand (.text value)

end Expr

/-! ## Actions -/

/-- The kinds of brackets around a motion. -/
inductive Bracket where
  | brace
  | bracket
  | paren
  deriving DecidableEq

namespace Bracket

def opening : Bracket → Symbol
  | brace => .mark .leftBrace "\x7b"
  | bracket => .mark .leftBracket "["
  | paren => .mark .leftParen "("

def closing : Bracket → Symbol
  | brace => .mark .rightBrace "\x7d"
  | bracket => .mark .rightBracket "]"
  | paren => .mark .rightParen ")"

end Bracket

/-- A repeat count, or none. -/
def countSymbols : Option Nat → List Symbol
  | none => []
  | some n => [.number (.integer n)]

/-- Words of motion codes and groups of them; a group in braces may have a count. -/
inductive SpellsAction : List Symbol → Prop
  | nil : SpellsAction []
  | word {w : String} {symbols : List Symbol} (hword : IsMotionWord w)
      (hnext : ∀ symbol ∈ symbols.head?, symbol.kind ≠ .name) (tail : SpellsAction symbols) :
      SpellsAction (.name w :: symbols)
  | group {b : Bracket} {inner symbols : List Symbol} {count : Option Nat}
    (hinner : SpellsAction inner)
      (hne : inner ≠ []) (hcount : ∀ n ∈ count, b = .brace ∧ n < Number.integerLimit)
      (tail : SpellsAction symbols) :
      SpellsAction (b.opening :: inner ++ b.closing :: countSymbols count ++ symbols)

namespace SpellsAction

theorem isMotionWord_append {w w' : String} (h : IsMotionWord w) (h' : IsMotionWord w') :
    IsMotionWord (w ++ w') := by
  refine ⟨fun hnil => h.1 ?_, fun c hc => ?_⟩
  · have := congrArg String.toList hnil
    simp only [String.toList_append, String.toList_empty, List.append_eq_nil_iff] at this
    exact String.toList_inj.1 this.1
  · rw [String.toList_append, List.mem_append] at hc
    exact hc.elim (h.2 c) (h'.2 c)

/-- A word in front of an action runs together with one that the action starts with. -/
theorem cons_word {w : String} (hword : IsMotionWord w) {symbols : List Symbol}
    (h : SpellsAction symbols) :
    ∃ symbols', SpellsAction symbols' ∧ symbols' ≠ [] ∧
      spelled symbols' = w.toList ++ spelled symbols := by
  cases h with
  | nil => exact ⟨[.name w], .word hword (by simp) .nil, by simp,
    by simp [Symbol.name, Symbol.mark]⟩
  | @word w' symbols hword' hnext tail =>
    exact ⟨.name (w ++ w') :: symbols, .word (isMotionWord_append hword hword') hnext tail, by simp,
      by simp [Symbol.name, Symbol.mark]⟩
  | @group b inner symbols count hinner hne hcount tail =>
    refine ⟨_, .word hword ?_ (.group hinner hne hcount tail), by simp, rfl⟩
    cases b <;> simp [Bracket.opening, Symbol.mark]

/-- Two actions one after the other are an action. -/
theorem append {symbols more : List Symbol} (h : SpellsAction symbols) (h' : SpellsAction more) :
    ∃ symbols', SpellsAction symbols' ∧ (symbols ≠ [] → symbols' ≠ []) ∧
      spelled symbols' = spelled symbols ++ spelled more := by
  induction h with
  | nil => exact ⟨more, h', by simp, rfl⟩
  | @word w symbols hword hnext tail ih =>
    obtain ⟨symbols', hsymbols', -, hspelled⟩ := ih
    obtain ⟨symbols'', hsymbols'', hne, hspelled'⟩ := cons_word hword hsymbols'
    exact ⟨symbols'', hsymbols'', fun _ => hne, by
      simp [hspelled', hspelled, Symbol.name, Symbol.mark]⟩
  | @group b inner symbols count hinner hne hcount tail _ ih =>
    obtain ⟨symbols', hsymbols', -, hspelled⟩ := ih
    exact ⟨_, .group hinner hne hcount hsymbols', by simp, by simp [hspelled]⟩

end SpellsAction

/-! ## Parameters -/

/-- An expression that is not taken for an action, or an action. -/
inductive Value.SpelledBy : Value → List Symbol → Prop
  | action {symbols : List Symbol} (h : SpellsAction symbols) (hne : symbols ≠ []) :
      SpelledBy (.action (String.ofList (spelled symbols))) symbols
  | expr {e : Expr} (h : e.Fits .sum) (hleftmost : ∀ w, e.leftmost = .name w → ¬IsMotionWord w) :
      SpelledBy (.expr e) e.symbols

/-- A key, an equals sign and the value. -/
def SpellsPair (pair : String × Value) (symbols : List Symbol) : Prop :=
  ∃ value, pair.2.SpelledBy value ∧ symbols = .name pair.1 :: .equals :: value

/-- Symbols with commas between them. -/
def commaSeparated (spellings : List (List Symbol)) : List Symbol :=
  [Symbol.comma].intercalate spellings

theorem commaSeparated_cons (spelling : List Symbol) (more : List (List Symbol)) :
    commaSeparated (spelling :: more) = spelling ++ more.flatMap (.comma :: ·) := by
  unfold commaSeparated
  induction more generalizing spelling with
  | nil => simp
  | cons next more ih => rw [List.intercalate_cons_cons, ih]; simp

theorem commaSeparated_cons_cons (spelling next : List Symbol) (more : List (List Symbol)) :
    commaSeparated (spelling :: next :: more) =
      spelling ++ .comma :: commaSeparated (next :: more) := by
  rw [commaSeparated_cons, commaSeparated_cons, List.flatMap_cons, List.cons_append]

/-- Values and then values under keys, at least one of them, with commas between them. -/
inductive Parameters.SpelledBy (p : Parameters) : List Symbol → Prop
  | mk {args pairs : List (List Symbol)} (hargs : List.Forall₂ Value.SpelledBy p.args args)
      (hpairs : List.Forall₂ SpellsPair p.keywords.entries pairs) (hne : args ++ pairs ≠ []) :
      SpelledBy p (commaSeparated (args ++ pairs))

/-! ## Scripts -/

/-- The directive line and the surface lines. -/
inductive Command.SpelledBy (c : Command) : List (List Symbol) → Prop
  | mk {params : List Symbol} {surfaces : List (List Symbol)}
    (hparams : c.parameters.SpelledBy params)
      (hsurfaces : List.Forall₂ Parameters.SpelledBy c.surfaces.toList surfaces) :
      SpelledBy c ((.name c.directive :: params) :: surfaces.map (.surface :: ·))

/-- The lines of the commands. -/
inductive Script.SpelledBy (s : Script) : List (List Symbol) → Prop
  | mk {commands : List (List (List Symbol))}
      (h : List.Forall₂ Command.SpelledBy s.commands.toList commands) : SpelledBy s commands.flatten

end OpticScript
