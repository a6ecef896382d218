import OpticScript.Proofs.Text.Endings
import OpticScript.Text.Quoted

/-!
# Reading escaped text

Text in quotes is read back from any form in which a character is written so that it is read as
itself (`Text.IsEscaped`) : the quote behind the text is the first one that is not escaped
(`Lexeme.quoteSize_enclose`), and the escapes stand for what was there (`Lexeme.unquote_enclose`).

Of the form that text is shown in this is so for printable ASCII characters, line feeds and tabs
(`IsWritable`). Other characters are not read back from it, since no escape is read for a code
point. Only carriage returns are not read back from the form that leaves all characters as they
are but backslashes, the quote and line feeds (`Text.escaped`).
-/

namespace OpticScript

namespace Text

/-- Printable ASCII, a line feed or a tab. -/
def IsWritable (c : Char) : Prop := (' ' ≤ c ∧ c ≤ '~') ∨ c = '\n' ∨ c = '\t'

instance : DecidablePred IsWritable := fun c => by
  unfold IsWritable
  infer_instance

theorem has_glyph {c : Char} (h : ' ' ≤ c ∧ c ≤ '~') :
    isExtending c = false ∧ isUnprintable c = false := by
  have hlow : 0x20 ≤ c.toNat := h.1
  have hhigh : c.toNat ≤ 0x7e := h.2
  constructor
  · rw [isExtending, extendingRanges, inRanges, if_pos (by omega)]
  · rw [isUnprintable, unprintableRanges, inRanges, if_neg (by omega), inRanges, if_pos (by omega)]
    simp
    omega

/-- Between such quotes a character is written as an escape that stands for it, or as itself. -/
def IsEscaped (quote c : Char) (written : List Char) : Prop :=
  (∃ letter, written = ['\\', letter] ∧ Lexeme.unescapeChar letter = [c] ∧
      isLineBreak letter = false) ∨
    written = [c] ∧ c ≠ '\\' ∧ c ≠ quote ∧ isLineBreak c = false

/-- Text as it is written by a rule for characters, between quotes. -/
def enclose (quote : Char) (escape : Char → List Char) (text : String) : String :=
  String.ofList ([quote] ++ text.toList.flatMap escape ++ [quote])

theorem toList_enclose (quote : Char) (escape : Char → List Char) (text : String) :
    (enclose quote escape text).toList = quote :: (text.toList.flatMap escape ++ [quote]) := by
  simp [enclose]

/-- A writable character is shown as it is read. -/
theorem isEscaped_escapeChar {c : Char} (h : IsWritable c) :
    IsEscaped '"' c (escapeChar ['"'] c) := by
  by_cases hspecial : c = '\n' ∨ c = '\t' ∨ c = '\\' ∨ c = '"'
  · refine .inl ?_
    rcases hspecial with rfl | rfl | rfl | rfl
    · exact ⟨'n', rfl, rfl, rfl⟩
    · exact ⟨'t', rfl, rfl, rfl⟩
    · exact ⟨'\\', rfl, rfl, rfl⟩
    · exact ⟨'"', rfl, rfl, rfl⟩
  · simp only [not_or] at hspecial
    obtain ⟨hfeed, htab, hbackslash, hquote⟩ := hspecial
    have hprinted : ' ' ≤ c ∧ c ≤ '~' := by simpa [IsWritable, hfeed, htab] using h
    have hcontrol : c ≠ '\r' ∧ c ≠ '\x00' := by
      constructor <;> (rintro rfl; revert hprinted; decide)
    refine .inr ⟨?_, hbackslash, hquote, isLineBreak_eq_false.2 ⟨hfeed, hcontrol.1⟩⟩
    have hshort : shortEscape? ['"'] c = none := by
      simp [shortEscape?, hfeed, htab, hbackslash, hquote, hcontrol]
    simp [escapeChar, hshort, has_glyph hprinted]

/-! ## Backslashes, quotes and line feeds -/

/-- The characters that strings stand between. -/
def IsQuote (c : Char) : Prop := c = '"' ∨ c = '\''

/-- A character with a backslash before it if it is one itself or the quote; a line feed has a
letter. -/
def escapeMark (quote c : Char) : List Char :=
  if c = '\\' ∨ c = quote then ['\\', c] else if c = '\n' then ['\\', 'n'] else [c]

/-- The text in quotes, with the backslashes, quotes and line feeds in it escaped. -/
def escaped (quote : Char) (text : String) : String := enclose quote (escapeMark quote) text

theorem IsQuote.isLineBreak {quote : Char} (h : IsQuote quote) : isLineBreak quote = false := by
  rcases h with rfl | rfl <;> rfl

theorem isEscaped_escapeMark {quote c : Char} (hquote : IsQuote quote) (hc : c ≠ '\r') :
    IsEscaped quote c (escapeMark quote c) := by
  unfold escapeMark
  split
  · rename_i hmark
    refine .inl ⟨c, rfl, ?_⟩
    rcases hmark with rfl | rfl
    · exact ⟨rfl, rfl⟩
    · exact ⟨by rcases hquote with rfl | rfl <;> rfl, hquote.isLineBreak⟩
  · rename_i hmark
    obtain ⟨hbackslash, hother⟩ := not_or.1 hmark
    split
    · rename_i hfeed
      exact .inl ⟨'n', rfl, by rw [hfeed]; rfl, rfl⟩
    · rename_i hfeed
      exact .inr ⟨rfl, hbackslash, hother, isLineBreak_eq_false.2 ⟨hfeed, hc⟩⟩

end Text

namespace Lexeme

open Text

theorem unescape_cons {c : Char} (hc : c ≠ '\\') (rest : List Char) :
    unescape (c :: rest) = c :: unescape rest := by
  rw [unescape]
  · rintro rfl
    exact absurd rfl hc
  · rintro d rest' rfl
    exact absurd rfl hc

section

variable {quote : Char} {escape : Char → List Char}

theorem isLineBreak_of_mem_escaped {text : List Char}
    (h : ∀ c ∈ text, IsEscaped quote c (escape c)) :
    ∀ c ∈ text.flatMap escape, isLineBreak c = false := by
  intro d hd
  obtain ⟨c, hc, hd⟩ := List.mem_flatMap.1 hd
  rcases h c hc with ⟨letter, heq, -, hletter⟩ | ⟨heq, -, -, hbreak⟩
  · rw [heq] at hd
    rcases List.mem_pair.1 hd with rfl | rfl
    · rfl
    · exact hletter
  · rw [heq] at hd
    exact List.mem_singleton.1 hd ▸ hbreak

/-- Escaped text stands for itself. -/
theorem unescape_escaped {text : List Char} (h : ∀ c ∈ text, IsEscaped quote c (escape c)) :
    unescape (text.flatMap escape) = text := by
  induction text with
  | nil => rfl
  | cons c text ih =>
    obtain ⟨hc, htext⟩ := List.forall_mem_cons.1 h
    rw [List.flatMap_cons]
    rcases hc with ⟨letter, heq, hletter, -⟩ | ⟨heq, hbackslash, -⟩
    · have hskip : ∀ more, unescape (['\\', letter] ++ more) =
          unescapeChar letter ++ unescape more :=
        fun _ => rfl
      rw [heq, hskip, hletter, ih htext, List.singleton_append]
    · rw [heq, List.singleton_append, unescape_cons hbackslash, ih htext]

/-- The quote behind escaped text closes it. -/
theorem closingSize_escaped {text : List Char} (hquote : IsQuote quote)
    (h : ∀ c ∈ text, IsEscaped quote c (escape c)) (rest : List Char) :
    closingSize? quote (text.flatMap escape ++ quote :: rest) =
      some ((text.flatMap escape).length + 1) := by
  induction text with
  | nil =>
    have hbackslash : quote ≠ '\\' := by rcases hquote with rfl | rfl <;> decide
    simp [closingSize_cons hbackslash, hquote.isLineBreak]
  | cons c text ih =>
    obtain ⟨hc, htext⟩ := List.forall_mem_cons.1 h
    rw [List.flatMap_cons, List.append_assoc, List.length_append]
    rcases hc with ⟨letter, heq, -⟩ | ⟨heq, hbackslash, hother, hbreak⟩
    · have hskip : ∀ more, closingSize? quote (['\\', letter] ++ more) =
          (closingSize? quote more).map (· + 2) := fun _ => rfl
      rw [heq, hskip, ih htext]
      exact congrArg some (by simp; omega)
    · rw [heq, List.singleton_append, closingSize_cons hbackslash, hbreak,
        if_neg Bool.false_ne_true, if_neg hother, ih htext]
      exact congrArg some (by simp; omega)

variable {text : String}

/-- Text in quotes has no line break in it. -/
theorem isLineBreak_of_mem_enclose (hquote : IsQuote quote)
    (h : ∀ c ∈ text.toList, IsEscaped quote c (escape c)) :
    ∀ c ∈ (enclose quote escape text).toList, isLineBreak c = false := by
  rw [toList_enclose, List.forall_mem_cons, List.forall_mem_append, List.forall_mem_singleton]
  exact ⟨hquote.isLineBreak, isLineBreak_of_mem_escaped h, hquote.isLineBreak⟩

theorem quoteSize_enclose (hquote : IsQuote quote)
    (h : ∀ c ∈ text.toList, IsEscaped quote c (escape c)) (rest : List Char) :
    quoteSize? ((enclose quote escape text).toList ++ rest) =
      some (enclose quote escape text).toList.length := by
  have hopens : (quote = '"' || quote = '\'') = true := by simpa [IsQuote] using hquote
  rw [toList_enclose, List.cons_append, List.append_assoc, List.singleton_append, quoteSize?,
    if_pos hopens, closingSize_escaped hquote h]
  simp

theorem unquote_enclose (h : ∀ c ∈ text.toList, IsEscaped quote c (escape c)) :
    String.ofList (unquote (enclose quote escape text).toList) = text := by
  rw [toList_enclose, unquote, List.drop_one, List.tail_cons, List.dropLast_concat,
    unescape_escaped h, String.ofList_toList]

end

end Lexeme

end OpticScript
