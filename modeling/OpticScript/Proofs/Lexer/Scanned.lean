import OpticScript.Proofs.Lexeme.Scanning
import OpticScript.Proofs.Lexer.Stream
import OpticScript.Proofs.Lexer.Regular

/-!
# What tokens are scanned from

A token of a text other than a newline and the end marker covers a lexeme, and its value is read
from its own text (`Token.IsScanned`, `Lexer.isScanned_of_mem_tokens`). So a name is a word that
is no number, an integer is not negative and not too large, and a mark is spelled as the
punctuation says.
-/

namespace OpticScript

open Lexeme

/-- The token covers what was scanned, and its value is that of its text. -/
structure Token.IsScanned (t : Token) : Prop where
  scan : ∃ text lexeme, Lexeme.scan? text = some lexeme ∧ lexeme.kind = t.kind ∧
    text.take lexeme.size = t.text.toList
  literal : Lexeme.literal? t.kind t.text.toList = some t.literal

/-! ## Lexemes -/

namespace Lexeme

variable {text : List Char} {lexeme : Lexeme}

theorem punctuation_mem (h : punctuation? text = some lexeme) :
    (text.take lexeme.size, lexeme.kind) ∈ TokenKind.punctuation := by
  obtain ⟨spelling, rest, rfl, hsize, hmem⟩ := exists_punctuation h
  rwa [hsize, List.take_left]

/-- A word is scanned where no number is, and any other lexeme is told by its kind. -/
theorem scan_cases (h : scan? text = some lexeme) :
    lexeme.kind ∈ [.newline, .comment, .number, .string] ∨
      lexeme.kind = .name ∧ wordSize? text = some lexeme.size ∧ startsInfinite text = false ∨
      (text.take lexeme.size, lexeme.kind) ∈ TokenKind.punctuation := by
  simp only [scan?, Option.or_eq_some_iff, Option.or_eq_none_iff] at h
  rcases h with ((((hnewline | ⟨-, hcomment⟩) | ⟨-, hnumber⟩) | ⟨-, hstring⟩) | ⟨hnone, hname⟩) |
    ⟨-, hpunctuation⟩
  · exact .inl (by simp [(kind_of_ofSize hnewline).1])
  · exact .inl (by simp [(kind_of_ofSize hcomment).1])
  · exact .inl (by simp [(kind_of_ofSize hnumber).1])
  · exact .inl (by simp [(kind_of_ofSize hstring).1])
  · obtain ⟨hkind, hsize⟩ := kind_of_ofSize hname
    refine .inr (.inl ⟨hkind, hsize, Bool.eq_false_iff.2 fun hinfinite => ?_⟩)
    have hnumber : numeralSize? text = some 3 := by
      unfold numeralSize?
      rw [if_pos hinfinite]
    simp [hnumber, ofSize?] at hnone
  · exact .inr (.inr (punctuation_mem hpunctuation))

/-- What begins with anything but a hash is no comment. -/
theorem kind_ne_comment {c : Char} {rest : List Char} (hc : c ≠ '#')
    (h : scan? (c :: rest) = some lexeme) : lexeme.kind ≠ .comment := by
  have hcomment : ofSize? .comment (commentSize? (c :: rest)) = none := by
    simp [commentSize?, hc, ofSize?]
  have hmarks : ∀ entry ∈ TokenKind.punctuation, entry.2 ≠ .comment := by decide
  simp only [scan?, hcomment, Option.or_none, Option.or_eq_some_iff] at h
  rcases h with (((hnewline | ⟨-, hnumber⟩) | ⟨-, hstring⟩) | ⟨-, hname⟩) | ⟨-, hmark⟩
  · simp [(kind_of_ofSize hnewline).1]
  · simp [(kind_of_ofSize hnumber).1]
  · simp [(kind_of_ofSize hstring).1]
  · simp [(kind_of_ofSize hname).1]
  · exact hmarks _ (punctuation_mem hmark)

end Lexeme

/-! ## Tokens -/

namespace Token.IsScanned

variable {t : Token}

theorem isWord (h : t.IsScanned) (hkind : t.kind = .name) : IsWord t.text.toList := by
  obtain ⟨text, lexeme, hscan, hlexeme, htext⟩ := h.scan
  rcases scan_cases hscan with hother | ⟨-, hsize, hinfinite⟩ | hmark
  · simp [hlexeme, hkind] at hother
  · obtain ⟨c, tail, rfl, hc, hlength⟩ := exists_of_wordSize hsize
    have htake : (c :: tail).take lexeme.size = c :: tail.takeWhile isWordChar := by
      rw [hlength, List.take_succ_cons, ← List.prefix_iff_eq_take.1 (List.takeWhile_prefix _)]
    rw [← htext, htake]
    refine ⟨?_, fun heq => ?_⟩
    · simp [wordSize?, hc, List.takeWhile_takeWhile, Nat.add_comm]
    · obtain ⟨rfl, hword⟩ := List.cons.inj heq
      obtain ⟨rest, rfl⟩ : ['n', 'f'] <+: tail := hword ▸ List.takeWhile_prefix _
      have hrest : rest.takeWhile isWordChar = [] := by simpa [isWordChar] using hword
      rcases rest with _ | ⟨d, rest⟩
      · simp [startsInfinite] at hinfinite
      · have hd : isWordChar d = false := by simpa [List.takeWhile_cons] using hrest
        simp [startsInfinite, hd] at hinfinite
  · have hname : ∀ entry ∈ TokenKind.punctuation, entry.2 ≠ .name := by decide
    exact absurd (hlexeme.trans hkind) (hname _ hmark)

theorem integer {value : Int} (h : t.IsScanned) (hkind : t.kind = .number)
    (hvalue : t.number? = some (.integer value)) : 0 ≤ value ∧ value < Number.integerLimit := by
  have hliteral := h.literal
  rw [hkind, literal?, Option.map_eq_some_iff] at hliteral
  obtain ⟨n, hn, hliteral⟩ := hliteral
  rw [number?, ← hliteral] at hvalue
  obtain rfl : n = .integer value := Option.some.inj hvalue
  unfold numeralValue? at hn
  split at hn
  · simp at hn
  · split at hn
    · simp at hn
    · split at hn
      · rename_i hlt
        obtain rfl : (_ : Int) = value := Number.integer.inj (Option.some.inj hn)
        exact ⟨Int.natCast_nonneg _, Int.ofNat_lt.2 hlt⟩
      · simp at hn

/-- A mark is spelled as the punctuation says. -/
theorem text_eq {kind : TokenKind} {spelling : String} (h : t.IsScanned)
    (hentry : (spelling.toList, kind) ∈ TokenKind.punctuation) (hkind : t.kind = kind) :
    t.text = spelling := by
  have hplain : ∀ entry ∈ TokenKind.punctuation,
      entry.2 ∉ [.newline, .comment, .number, .string] ∧ entry.2 ≠ .name := by decide
  have hinjective : ∀ entry ∈ TokenKind.punctuation, ∀ entry' ∈ TokenKind.punctuation,
      entry.2 = entry'.2 → entry.1 = entry'.1 := by decide
  obtain ⟨text, lexeme, hscan, hlexeme, htext⟩ := h.scan
  have hsame : lexeme.kind = kind := hlexeme.trans hkind
  rcases scan_cases hscan with hother | ⟨hname, -⟩ | hmark
  · exact absurd (hsame ▸ hother) (hplain _ hentry).1
  · exact absurd (hsame.symm.trans hname) (hplain _ hentry).2
  · exact String.toList_inj.1 (htext ▸ hinjective _ hmark _ hentry hsame)

end Token.IsScanned

/-! ## Lexers -/

namespace Lexer

variable {lexer : Lexer} {t : Token}

theorem Regular.isScanned (h : lexer.Regular) {after : Lexer}
    (ht : lexer.nextToken = (.ok t, after)) :
    t.kind = .newline ∨ t.kind = .endMarker ∨ t.IsScanned := by
  obtain ⟨start, -, ⟨c, tail, -, -, hscan⟩ | ⟨-, -, hfinish⟩⟩ := h.nextToken_eq
  · rw [hscan] at ht
    rcases start.scan_cases c with ⟨_, _, _, -, -, -, heq⟩ |
      ⟨lexeme, literal, t', hlexeme, hliteral, ht', heq⟩
    · simp [heq, refuse] at ht
    · obtain rfl : t' = t := Except.ok.inj (congrArg Prod.fst (heq.symm.trans ht))
      subst ht'
      refine .inr (.inr ⟨⟨_, lexeme, hlexeme, rfl, ?_⟩, ?_⟩)
      · exact String.toList_ofList.symm
      · change literal? lexeme.kind (String.ofList _).toList = some literal
        rw [String.toList_ofList, hliteral]
  · rw [hfinish] at ht
    obtain ⟨opener, -, heq⟩ | ⟨-, -, heq⟩ | ⟨-, -, heq⟩ := start.finish_cases
    · simp [heq, refuse] at ht
    · obtain rfl := Except.ok.inj (congrArg Prod.fst (heq.symm.trans ht))
      exact .inl rfl
    · obtain rfl := Except.ok.inj (congrArg Prod.fst (heq.symm.trans ht))
      exact .inr (.inl rfl)

/-- A token of a text is a lexeme, unless it is a newline or the end marker. -/
theorem isScanned_of_mem_tokens {name text : String} {tab : TabStop}
    (h : t ∈ (ofSource (.ofText name text tab)).toEnd.tokens) (hnewline : t.kind ≠ .newline)
    (hmark : t.kind ≠ .endMarker) : t.IsScanned := by
  obtain ⟨i, -, -, hitem, -⟩ := exists_item_of_mem_tokens h
  rcases ((regular_ofSource name text tab).after i).isScanned (item_eq_ok_iff.1 hitem)
    with h | h | h
  · exact absurd h hnewline
  · exact absurd h hmark
  · exact h

end Lexer

end OpticScript
