import OpticScript.Proofs.Lexer.Spelling
import OpticScript.Proofs.Script.Append
import OpticScript.Proofs.Script.Spelled

/-!
# Text forms that are spelled

The text form of an expression with words, readable numbers and writable strings in it
(`Expr.IsLegible`) is scanned as the symbols of the expression, although there are no blanks
between them : a word or a number ends at an operator, and no operand begins with a star or a
slash (`Expr.IsLegible.spelling`). The text form of an action is scanned as its words and
groups (`SpellsAction.spelling`).

A value is legible if its text form is scanned as symbols that spell it, and so are parameters
and commands. They are if their parts are (`Parameters.isLegible`, `Command.isLegible`), and a
script of legible commands is read back from its text form (`Script.ofSource_of_isLegible`).
-/

namespace OpticScript

open Lexeme

/-! ## Expressions -/

section

variable {rest : List Char}

/-- Words, numbers that are read back and writable strings. -/
def Expr.IsLegible : Expr → Prop
  | number n => n.IsReadable
  | name w => IsWord w.toList
  | text s => ∀ c ∈ s.toList, Text.IsWritable c
  | unary _ operand => operand.IsLegible
  | binary _ left right => left.IsLegible ∧ right.IsLegible

theorem scans_sign (sign : Sign) : (Symbol.mark sign.kind sign.symbol).Scans rest := by
  cases sign <;> exact Symbol.scans_plain (by decide) (by decide) rest

theorem scans_operator (op : Operator) (hrest : ∀ c ∈ rest.head?, c ≠ '*' ∧ c ≠ '/') :
    (Symbol.mark op.kind op.symbol).Scans rest := by
  refine Symbol.scans_mark (by cases op <;> decide) fun c hc _ hhead => ?_
  obtain ⟨hstar, hslash⟩ := hrest c hhead
  simp [hstar, hslash] at hc

theorem Operator.endsWord (op : Operator) (rest : List Char) :
    EndsWord (op.symbol.toList ++ rest) := by
  cases op <;> exact endsWord_cons rfl _

theorem ne_mark_of_isWordChar {c : Char} (h : isWordChar c = true) : c ≠ '*' ∧ c ≠ '/' := by
  constructor <;> (rintro rfl; simp [isWordChar] at h)

/-- The text begins with a character that makes no other operator of the one before it. -/
def BeginsOperand (text : List Char) : Prop := ∃ c tail, text = c :: tail ∧ c ≠ '*' ∧ c ≠ '/'

theorem BeginsOperand.append {text : List Char} (h : BeginsOperand text) (more : List Char) :
    BeginsOperand (text ++ more) := by
  obtain ⟨c, tail, rfl, hc⟩ := h
  exact ⟨c, tail ++ more, rfl, hc⟩

theorem beginsOperand_number {n : Number} (h : n.IsReadable) :
    BeginsOperand (Symbol.number n).text.toList := by
  obtain ⟨hchars, c, tail, heq, -⟩ := Number.isWordChar_of_mem_render h
  exact ⟨c, tail, heq, ne_mark_of_isWordChar (hchars c (heq ▸ List.mem_cons_self))⟩

theorem beginsOperand_name {w : String} (h : IsWord w.toList) :
    BeginsOperand (Symbol.name w).text.toList := by
  obtain ⟨c, tail, heq, hc, -⟩ := exists_of_wordSize h.1
  exact ⟨c, tail, heq, ne_mark_of_isWordChar (isWordChar_of_isWordStart hc)⟩

theorem beginsOperand_sign (sign : Sign) (symbols : List Symbol) :
    BeginsOperand (spelled (.mark sign.kind sign.symbol :: symbols)) := by
  cases sign <;> exact ⟨_, _, rfl, by decide, by decide⟩

/-- No expression begins with a star or a slash. -/
theorem Expr.IsLegible.beginsOperand {e : Expr} (h : e.IsLegible) :
    BeginsOperand (spelled e.symbols) := by
  induction e with
  | number n => simpa [symbols] using beginsOperand_number h
  | name w => simpa [symbols] using beginsOperand_name h
  | text s =>
    exact ⟨'"', s.toList.flatMap (Text.escapeChar ['"']) ++ ['"'],
      by simp [symbols, Symbol.quoted, Text.quoted], by decide, by decide⟩
  | unary sign operand => exact beginsOperand_sign sign _
  | binary op left right ihl _ =>
    rw [symbols, spelled_append]
    exact (ihl h.1).append _

theorem Spelling.sign {text : List Char} {symbols : List Symbol} (h : Spelling text symbols)
    (sign : Sign) :
    Spelling (sign.symbol.toList ++ text) (.mark sign.kind sign.symbol :: symbols) :=
  h.cons (by cases sign <;> exact ⟨rfl, rfl⟩) fun _ _ => scans_sign sign

/-- Two operands and an operator between them, which no character of the second one changes. -/
theorem Spelling.binary {left right : List Char} {ls rs : List Symbol} (h : Spelling left ls)
    (op : Operator) (h' : Spelling right rs) (hright : BeginsOperand right) :
    Spelling (left ++ (op.symbol.toList ++ right)) (ls ++ .mark op.kind op.symbol :: rs) := by
  obtain ⟨c, tail, rfl, hc⟩ := hright
  have hoperator : ∀ rest, EndsWord rest →
      (Symbol.mark op.kind op.symbol).Scans (c :: tail ++ rest) :=
    fun rest _ => scans_operator op fun d hd => Option.some.inj hd ▸ hc
  exact h.append (op.endsWord _) (h'.cons (by cases op <;> exact ⟨rfl, rfl⟩) hoperator)

theorem Expr.IsLegible.spelling {e : Expr} (h : e.IsLegible) :
    Spelling (spelled e.symbols) e.symbols := by
  induction e with
  | number n =>
    simpa [symbols] using Spelling.single ⟨rfl, rfl⟩ fun rest => Symbol.scans_number h
  | name w =>
    simpa [symbols] using Spelling.single ⟨rfl, rfl⟩ fun rest => Symbol.scans_name h
  | text s =>
    simpa [symbols] using Spelling.single ⟨rfl, rfl⟩ fun rest _ => Symbol.scans_quoted h rest
  | unary sign operand ih => exact (ih h).sign sign
  | binary op left right ihl ihr =>
    rw [symbols, spelled_append]
    exact (ihl h.1).binary op (ihr h.2) h.2.beginsOperand

end

/-! ## Actions -/

section

variable {rest : List Char} {symbols : List Symbol}

theorem IsMotionWord.isWord {w : String} (h : IsMotionWord w) : IsWord w.toList := by
  obtain ⟨hne, hcodes⟩ := h
  have hword : ∀ c ∈ ['c', 'd', 'h', 'i', 'n', 'r', 's', 't', 'v'],
      isWordStart c = true ∧ isWordChar c = true := by
    simp [isWordStart, isWordChar]
  rcases heq : w.toList with _ | ⟨c, tail⟩
  · exact absurd (String.toList_eq_nil_iff.1 heq) hne
  · rw [heq] at hcodes
    refine ⟨?_, fun hinfinite => ?_⟩
    · have htail : tail.takeWhile isWordChar = tail :=
        List.takeWhile_eq_self_iff.2 fun d hd => (hword d (hcodes d (List.mem_cons_of_mem c hd))).2
      rw [wordSize?, if_pos (hword c (hcodes c List.mem_cons_self)).1, htail, List.length_cons,
        Nat.add_comm]
    · have hf : 'f' ∈ c :: tail := by simp [hinfinite]
      exact absurd (hcodes 'f' hf) (by decide)

/-- A repeat count ends in front of an action. -/
theorem SpellsAction.endsNumeral (h : SpellsAction symbols) (hrest : EndsWord rest) :
    EndsNumeral (spelled symbols ++ rest) := by
  cases h with
  | nil => exact hrest.endsNumeral
  | @word w _ hword =>
    obtain ⟨c, tail, heq, -⟩ := exists_of_wordSize hword.isWord.1
    have hc := hword.2 c (heq ▸ List.mem_cons_self)
    have hcodes : ∀ c ∈ ['c', 'd', 'h', 'i', 'n', 'r', 's', 't', 'v'],
        c.isDigit = false ∧ c ≠ '.' ∧ c ≠ 'e' ∧ c ≠ 'E' := by simp
    intro d hd
    obtain rfl : c = d := by simpa [Symbol.name, Symbol.mark, heq] using hd
    exact hcodes c hc
  | @group b =>
    intro d hd
    cases b <;> exact Option.some.inj hd ▸ by decide

theorem SpellsAction.endsWord (h : SpellsAction symbols)
    (hnext : ∀ symbol ∈ symbols.head?, symbol.kind ≠ .name) : EndsWord (spelled symbols) := by
  cases h with
  | nil => simp [EndsWord]
  | @word w => exact absurd rfl (hnext (.name w) rfl)
  | @group b => cases b <;> exact endsWord_cons rfl _

theorem SpellsAction.spelling (h : SpellsAction symbols) : Spelling (spelled symbols) symbols := by
  induction h with
  | nil => exact .nil
  | @word w symbols hword hnext tail ih =>
    refine .cons ⟨rfl, rfl⟩ (fun rest hrest => ?_) ih
    exact Symbol.scans_name hword.isWord (Spelling.endsWord_append (tail.endsWord hnext) hrest)
  | @group b inner symbols count _ _ hcount tail ihinner ih =>
    have hrest :
        Spelling (spelled (countSymbols count ++ symbols)) (countSymbols count ++ symbols) := by
      cases count with
      | none => exact ih
      | some n =>
        exact .cons ⟨rfl, rfl⟩ (fun rest hrest =>
          Symbol.scans_count (hcount n rfl).2 (tail.endsNumeral hrest)) ih
    simpa using Spelling.group b ihinner hrest

end

/-! ## Values -/

/-- The text form of the value is scanned as symbols that spell it. -/
def Value.IsLegible (v : Value) : Prop :=
  ∃ symbols, v.SpelledBy symbols ∧ Spelling v.render.toList symbols

theorem Value.isLegible_action {symbols : List Symbol} (h : SpellsAction symbols)
    (hne : symbols ≠ []) : (Value.action (String.ofList (spelled symbols))).IsLegible :=
  ⟨symbols, .action h hne, by simpa [render] using h.spelling⟩

theorem Value.isLegible_expr {e : Expr} (h : e.IsLegible) (hfits : e.Fits .sum)
    (hleftmost : ∀ w, e.leftmost = .name w → ¬IsMotionWord w) : (Value.expr e).IsLegible :=
  ⟨e.symbols, .expr hfits hleftmost, by simpa [render, Expr.toList_render] using h.spelling⟩

/-! ## Parameters -/

/-- Pieces with a comma and a blank between each two. -/
theorem spelling_commaSeparated {texts : List (List Char)} {spellings : List (List Symbol)}
    (h : List.Forall₂ Spelling texts spellings) :
    Spelling ([',', ' '].intercalate texts) (commaSeparated spellings) := by
  induction h with
  | nil => exact .nil
  | @cons text symbols texts spellings hfirst hmore ih =>
    cases hmore with
    | nil => simpa [commaSeparated] using hfirst
    | cons hnext hmore =>
      rw [List.intercalate_cons_cons, commaSeparated_cons_cons, List.append_assoc]
      refine hfirst.append (endsWord_cons rfl _) ?_
      have hcomma : ∀ rest, Symbol.comma.Scans rest := Symbol.scans_plain (by decide) (by decide)
      exact (ih.blank rfl).cons ⟨rfl, rfl⟩ fun rest _ => hcomma _

def Parameters.IsLegible (p : Parameters) : Prop :=
  ∃ symbols, p.SpelledBy symbols ∧ Spelling p.render.toList symbols

/-- Lists that are related to those of others are so item by item. -/
theorem exists_forall₂ {α β : Type} {R : α → β → Prop} {l : List α} (h : ∀ a ∈ l, ∃ b, R a b) :
    ∃ l', List.Forall₂ R l l' := by
  induction l with
  | nil => exact ⟨[], .nil⟩
  | cons a l ih =>
    obtain ⟨⟨b, hb⟩, hl⟩ := List.forall_mem_cons.1 h
    obtain ⟨l', hl'⟩ := ih hl
    exact ⟨b :: l', .cons hb hl'⟩

theorem Parameters.isLegible {p : Parameters} (hargs : ∀ v ∈ p.args, v.IsLegible)
    (hpairs : ∀ pair ∈ p.keywords.entries, IsWord pair.1.toList ∧ pair.2.IsLegible)
    (hne : p.args ≠ [] ∨ p.keywords.entries ≠ []) : p.IsLegible := by
  have hpair : ∀ pair ∈ p.keywords.entries, ∃ symbols, SpellsPair pair symbols ∧
      Spelling (pair.1 ++ "=" ++ pair.2.render).toList symbols := by
    intro pair hpair
    obtain ⟨hkey, value, hvalue, hspelling⟩ := hpairs pair hpair
    refine ⟨_, ⟨value, hvalue, rfl⟩, ?_⟩
    have hequals : Spelling ("=".toList ++ pair.2.render.toList) (.equals :: value) :=
      hspelling.cons ⟨rfl, rfl⟩ fun rest _ => Symbol.scans_plain (by decide) (by decide) _
    rw [String.append_assoc, String.toList_append, String.toList_append]
    exact hequals.cons ⟨rfl, rfl⟩ fun rest _ =>
      Symbol.scans_name hkey (endsWord_cons rfl _)
  obtain ⟨args, hargs⟩ := exists_forall₂ hargs
  obtain ⟨pairs, hpairs⟩ := exists_forall₂ hpair
  refine ⟨_, .mk (hargs.imp fun _ _ h => h.1) (hpairs.imp fun _ _ h => h.1) ?_, ?_⟩
  · intro hnil
    obtain ⟨rfl, rfl⟩ := List.append_eq_nil_iff.1 hnil
    exact hne.elim (fun h => h (List.forall₂_nil_right_iff.1 hargs))
      fun h => h (List.forall₂_nil_right_iff.1 hpairs)
  · rw [render, String.toList_intercalate]
    refine spelling_commaSeparated ?_
    rw [List.map_append, List.map_map, List.map_map]
    refine List.rel_append ?_ ?_
    · exact List.forall₂_map_left_iff.2 (hargs.imp fun _ _ h => h.2)
    · exact List.forall₂_map_left_iff.2 (hpairs.imp fun _ _ h => h.2)

/-! ## Commands -/

/-- The lines of the text form of a command, without their ends. -/
def Command.lines (c : Command) : List (List Char) :=
  ((c.directive ++ " " ++ c.parameters.render) ::
    c.surfaces.toList.map Parameters.renderSurface).map
    String.toList

/-- The lines of the text form of the command are scanned as symbols that spell it. -/
def Command.IsLegible (c : Command) : Prop :=
  ∃ spellings, c.SpelledBy spellings ∧ List.Forall₂ Spelling c.lines spellings

theorem Command.isLegible {c : Command} (hdirective : IsWord c.directive.toList)
    (hparams : c.parameters.IsLegible)
    (hsurfaces : ∀ surface ∈ c.surfaces.toList, surface.IsLegible) :
    c.IsLegible := by
  obtain ⟨params, hparams, hspelling⟩ := hparams
  obtain ⟨surfaces, hsurfaces⟩ := exists_forall₂ hsurfaces
  refine ⟨_, .mk hparams (hsurfaces.imp fun _ _ h => h.1), .cons ?_ ?_⟩
  · rw [String.append_assoc, String.toList_append, String.toList_append]
    exact (hspelling.blank rfl).cons ⟨rfl, rfl⟩ fun rest _ =>
      Symbol.scans_name hdirective (endsWord_cons rfl _)
  · rw [List.map_map, List.forall₂_map_left_iff, List.forall₂_map_right_iff]
    refine hsurfaces.imp fun surface symbols h => ?_
    have hplus : ∀ rest, Symbol.surface.Scans rest := Symbol.scans_plain (by decide) (by decide)
    have hmarked : Spelling ("+".toList ++ ' ' :: surface.render.toList) (.surface :: symbols) :=
      (h.2.blank rfl).cons ⟨rfl, rfl⟩ fun rest _ => hplus _
    simpa [Parameters.renderSurface] using hmarked.blank (c := '\t') rfl

/-! ## Scripts -/

namespace Script

def lines (s : Script) : List (List Char) := s.commands.toList.flatMap Command.lines

theorem intercalate_newline (line : List Char) (more : List (List Char)) :
    ['\n'].intercalate (line :: more) ++ ['\n'] = (line :: more).flatMap (· ++ ['\n']) := by
  induction more generalizing line with
  | nil => simp
  | cons next more ih =>
    rw [List.intercalate_cons_cons, List.append_assoc, ih, List.flatMap_cons (x := line)]

/-- The text form of a script consists of lines. -/
theorem toList_render (s : Script) : s.render.toList = s.lines.flatMap (· ++ ['\n']) := by
  have hcommand :
      ∀ c : Command, (c.render ++ "\n").toList = c.lines.flatMap (· ++ ['\n']) := fun c => by
    rw [Command.render, String.toList_append, String.toList_intercalate, List.map_cons]
    exact intercalate_newline _ _
  simp only [render, String.toList_join, List.flatMap_map, hcommand, lines, List.flatMap_assoc]

/-- A script of legible commands is read back from its text form. -/
theorem ofSource_of_isLegible {s : Script} (name : String) (tab : TabStop)
    (h : ∀ c ∈ s.commands.toList, c.IsLegible) : ofSource (.ofText name s.render tab) = .ok s := by
  obtain ⟨commands, hcommands⟩ := exists_forall₂ h
  have hspelled : s.SpelledBy commands.flatten := .mk (hcommands.imp fun _ _ h => h.1)
  have hlines : List.Forall₂ Spelling s.lines commands.flatten := by
    rw [lines, List.flatMap_def]
    exact List.rel_flatten (List.forall₂_map_left_iff.2 (hcommands.imp fun _ _ h => h.2))
  by_cases hne : s.lines = []
  · have hnil : s = .empty := by
      obtain ⟨commands⟩ := s
      have hcommands : ∀ c ∈ commands.toList, c.lines = [] := List.flatMap_eq_nil_iff.1 hne
      have hnone : ∀ c ∈ commands.toList, False :=
        fun c hc => absurd (hcommands c hc) (List.cons_ne_nil _ _)
      rw [empty, Array.toList_eq_nil_iff.1 (List.eq_nil_iff_forall_not_mem.2 hnone)]
    rw [hnil]
    exact ofSource_nil name tab
  · obtain ⟨hshows, hend⟩ := Lexer.shows_lines name tab hlines hne s.toList_render
    exact hspelled.ofSource_eq hshows hend

end Script

end OpticScript
