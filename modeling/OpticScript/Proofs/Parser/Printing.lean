import OpticScript.Proofs.Grammar.Printed
import OpticScript.Proofs.Parser.Caching
import OpticScript.Proofs.Script.Rendering

/-!
# Printed expressions are read back

The text of a printed expression is scanned as the symbols that are printed
(`Expr.IsPrintable.spelling`), and the expression is derived from them, so the rule of sums matches
it (`matches_of_shows_printed`). What a rule matches a parser answers (`Parser.answer_of_matches`).
So a parser over the text of an expression and a newline gives back the expression, and it is
then in front of the newline (`Parser.answer_print`).
-/

namespace OpticScript

open Lexeme Packrat

/-- Integers that a script can hold, words, and texts without carriage returns. -/
def Expr.IsPrintable : Expr → Prop
  | number (.integer value) => 0 ≤ value ∧ value < Number.integerLimit
  | number (.float _) => False
  | name spelling => IsWord spelling.toList
  | text value => ∀ c ∈ value.toList, c ≠ '\r'
  | unary _ operand => operand.IsPrintable
  | binary _ left right => left.IsPrintable ∧ right.IsPrintable

/-! ## Scanning -/

section

variable {e : Expr} {quote : Char}

theorem Expr.IsPrintable.isReadable {n : Number} (h : (Expr.number n).IsPrintable) :
    n.IsReadable := by
  cases n with
  | integer value => exact h
  | float => exact absurd h id

theorem Spelling.enclosed {symbols : List Symbol} (h : Spelling (spelled symbols) symbols)
    (needed : Tier) (e : Expr) :
    Spelling (spelled (e.enclosed needed symbols)) (e.enclosed needed symbols) := by
  unfold Expr.enclosed
  split
  · simpa using Spelling.group .paren h .nil
  · exact h

theorem beginsOperand_enclosed {symbols : List Symbol} (h : BeginsOperand (spelled symbols))
    (needed : Tier) (e : Expr) : BeginsOperand (spelled (e.enclosed needed symbols)) := by
  unfold Expr.enclosed
  split
  · exact ⟨'(', _, rfl, by decide, by decide⟩
  · exact h

/-- No operand is printed with a star or a slash at the beginning. -/
theorem Expr.IsPrintable.beginsOperand (hquote : Text.IsQuote quote) (h : e.IsPrintable) :
    BeginsOperand (spelled (e.printed (.escaped quote))) := by
  induction e with
  | number n => simpa [printed] using beginsOperand_number h.isReadable
  | name w => simpa [printed] using beginsOperand_name h
  | text s =>
    have hquoted : spelled (printed (.escaped quote) (text s)) =
        quote :: (s.toList.flatMap (Text.escapeMark quote) ++ [quote]) := by
      simp [printed, Symbol.escaped, Text.escaped, Text.toList_enclose]
    exact ⟨quote, _, hquoted, by rcases hquote with rfl | rfl <;> decide⟩
  | unary sign operand => exact beginsOperand_sign sign _
  | binary op left right ihl _ =>
    rw [printed, spelled_append]
    exact (beginsOperand_enclosed (ihl h.1) _ _).append _

/-- A printed expression is scanned as its symbols. -/
theorem Expr.IsPrintable.spelling (hquote : Text.IsQuote quote) (h : e.IsPrintable) :
    Spelling (spelled (e.printed (.escaped quote))) (e.printed (.escaped quote)) := by
  induction e with
  | number n =>
    simpa [printed] using Spelling.single ⟨rfl, rfl⟩ fun rest => Symbol.scans_number h.isReadable
  | name w => simpa [printed] using Spelling.single ⟨rfl, rfl⟩ fun rest => Symbol.scans_name h
  | text s =>
    have hescaped : ∀ c ∈ s.toList, Text.IsEscaped quote c (Text.escapeMark quote c) :=
      fun c hc => Text.isEscaped_escapeMark hquote (h c hc)
    have hscans : ∀ rest, (Symbol.escaped quote s).Scans rest :=
      Symbol.scans_enclose hquote hescaped
    simpa [printed] using Spelling.single ⟨rfl, rfl⟩ fun rest _ => hscans rest
  | unary sign operand ih => exact ((ih h).enclosed _ _).sign sign
  | binary op left right ihl ihr =>
    rw [printed, spelled_append]
    exact ((ihl h.1).enclosed _ _).binary op ((ihr h.2).enclosed _ _)
      (beginsOperand_enclosed (h.2.beginsOperand hquote) _ _)

end

/-! ## Matching -/

/-- An expression is matched where the symbols that are printed come next and then a newline. -/
theorem matches_of_shows_printed {items : Nat → Except ScriptError (Option Token)} {pos : Nat}
    {string : String → Symbol} (hstring : IsString string) {e : Expr}
    (h : Shows items pos (e.printed string ++ [.newline])) :
    ∃ stop t, Rule.sum.Matches items pos (some e) stop ∧ items stop = .ok (some t) ∧
      t.kind = .newline := by
  obtain ⟨tokens, htokens, hlists⟩ := shows_iff_lists.1 h
  obtain ⟨tokens, last, rfl, hprinted, hlast⟩ := List.map_eq_append_iff.1 htokens
  obtain ⟨newline, rfl, hnewline⟩ := List.map_eq_singleton_iff.1 hlast
  have hkind : newline.kind = .newline := congrArg Symbol.kind hnewline
  have hderives : DerivesExpr .sum (tokens ++ [newline]) [newline] e :=
    (e.derives_printed hstring tokens newline [] (by simp [hkind]) hprinted).loosen (Nat.zero_le _)
  obtain ⟨stop, -, -, ⟨hitem, -⟩, hreads⟩ := hderives.reads hlists
  exact ⟨stop, newline, hreads.matches_sum ⟨newline, hitem, by simp [hkind, Tier.goesOn]⟩,
    hitem, hkind⟩

namespace Parser

section

variable {lexer : Lexer} {n : Nat} {parser : Parser}

/-- A parser answers what a rule matches. -/
theorem answer_of_matches (h : Sound lexer true n parser) {r : Rule} {result : Option r.Result}
    {stop : Nat} (hmatches : r.Matches lexer.item parser.cursor result stop) :
    (answer (.rule r) parser).1 = .ok (result.map r.wrap) ∧
      (answer (.rule r) parser).2.cursor = stop ∧
      ∃ n, Sound lexer true n (answer (.rule r) parser).2 := by
  obtain ⟨wall, hle, hwall, hfuel⟩ := exists_wall_of_sound h
  obtain ⟨fuel', hanswer, hstop⟩ := hmatches.exists
  have hfinishes : (lexer.comesTo fuel' r parser.cursor).Finishes := by
    rw [Outcome.Finishes, Lexer.comesTo, hanswer]
    simp
  have heq : lexer.comesTo (fuel parser) r parser.cursor = lexer.comesTo fuel' r parser.cursor :=
    evaluate_eq_of_finishes hfinishes (Lexer.comesTo_finishes hwall hle hfuel)
  have hagrees : Answers lexer true n
      ((lexer.comesTo (fuel parser) r parser.cursor).wrapped Rule.nodes)
      (answer (.rule r) parser) := callWith_agrees r h
  rw [heq, Answers, Agrees, Lexer.comesTo, Outcome.map_answer_ok.2 ⟨_, hanswer, rfl⟩] at hagrees
  exact ⟨hagrees.1, hagrees.2.1.trans hstop, _, hagrees.2.2⟩

/-- A parser is in front of the token at its cursor. -/
theorem peek_of_item (h : Sound lexer true n parser) {t : Token}
    (ht : lexer.item parser.cursor = .ok (some t)) : (peek parser).1 = .ok t := by
  have hagrees := peek_agrees h
  rw [Lexer.tokenAt, lookAt, ht] at hagrees
  exact hagrees.1

end

/-- Reading undoes printing. An expression of integers, words and texts that is printed with as few
parentheses as it needs is what a parser over the text and a newline gives for a sum, and the
parser is then in front of the newline. -/
theorem answer_print {quote : Char} (hquote : Text.IsQuote quote) {e : Expr} (he : e.IsPrintable)
    (name : String) (tab : TabStop) (trace : Option Trace) :
    let parser := ofLexer (.ofSource (.ofText name (e.print quote ++ "\n") tab)) trace
    (answer (.rule .sum) parser).1 = .ok (some (.expr e)) ∧
      ∃ newline, (peek (answer (.rule .sum) parser).2).1 = .ok newline ∧
      newline.kind = .newline := by
  intro parser
  have hspelling : List.Forall₂ Spelling [(e.print quote).toList] [e.printed (.escaped quote)] := by
    rw [e.toList_print]
    exact .cons (he.spelling hquote) .nil
  have htext : (e.print quote ++ "\n").toList = [(e.print quote).toList].flatMap (· ++ ['\n']) := by
    simp
  obtain ⟨hshows, -⟩ := Lexer.shows_lines name tab hspelling (List.cons_ne_nil _ _) htext
  rw [List.flatMap_singleton] at hshows
  obtain ⟨stop, newline, hmatches, hitem, hkind⟩ :=
    matches_of_shows_printed (fun _ => ⟨rfl, rfl⟩) hshows
  obtain ⟨hanswer, hcursor, n, hsound⟩ := answer_of_matches (sound_ofLexer _ true trace) hmatches
  exact ⟨hanswer, newline, peek_of_item hsound (hcursor ▸ hitem), hkind⟩

/-- A difference in parentheses, a product of it and a power of a text. -/
def printedExample : Expr :=
  .binary .multiply (.binary .subtract (.number (.integer 1)) (.name "l1.P"))
    (.unary .minus (.binary .power (.text "a'\n") (.number (.integer 2))))

theorem answer_print_example :
    Text.IsQuote '\'' ∧ printedExample.IsPrintable ∧
      printedExample.print '\'' = "(1-l1.P)*-'a\\'\\n'**2" ∧
      (answer (.rule .sum) (ofLexer (.ofSource
        (.ofText "" (printedExample.print '\'' ++ "\n"))))).1 =
            .ok (some (.expr printedExample)) := by
  have hquote : Text.IsQuote '\'' := .inr rfl
  have hprintable : printedExample.IsPrintable := by
    refine ⟨⟨⟨by decide, by decide⟩, ?_⟩, ?_, ⟨by decide, by decide⟩⟩
    · exact ⟨rfl, by decide⟩
    · simp [Expr.IsPrintable]
  exact ⟨hquote, hprintable, rfl, (answer_print hquote hprintable "" default none).1⟩

end Parser

end OpticScript
