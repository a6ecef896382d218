import OpticScript.Proofs.Grammar.Symbols
import OpticScript.Proofs.Lexeme.Numeral
import OpticScript.Proofs.Lexer.Lines
import OpticScript.Proofs.Text.Quoted

/-!
# Scanning what is spelled

The text of a symbol is scanned as that symbol (`Symbol.Scans`), if what comes after it does not
go on with it : a word or a number ends where no word goes on, a repeat count where no numeral
does, and a mark is not followed by another star or slash that would make one mark of the two.
-/

namespace OpticScript

/-- The text of the symbol is a part of a line and what is scanned first before `rest`, and its
value is read. -/
structure Symbol.Scans (symbol : Symbol) (rest : List Char) : Prop where
  unbroken : ∀ c ∈ symbol.text.toList, Text.isLineBreak c = false
  scan : ∃ lexeme, Lexeme.scan? (symbol.text.toList ++ rest) = some lexeme ∧
    lexeme.kind = symbol.kind ∧ lexeme.size = symbol.text.toList.length
  literal : Lexeme.literal? symbol.kind symbol.text.toList = some symbol.literal

namespace Lexeme

open Text

variable {text rest tail : List Char} {c : Char} {size : Nat}

/-- A word that is no number. -/
def IsWord (text : List Char) : Prop := wordSize? text = some text.length ∧ text ≠ ['i', 'n', 'f']

theorem exists_of_wordSize (h : wordSize? text = some size) :
    ∃ c tail, text = c :: tail ∧ isWordStart c = true ∧
      size = (tail.takeWhile isWordChar).length + 1 := by
  rcases text with _ | ⟨c, tail⟩
  · simp [wordSize?] at h
  · rw [wordSize?] at h
    split at h
    · rename_i hc
      exact ⟨c, tail, rfl, hc, (Option.some.inj h).symm.trans (Nat.add_comm _ _)⟩
    · simp at h

theorem isWordChar_of_isWordStart (h : isWordStart c = true) : isWordChar c = true := by
  simp only [isWordStart, Bool.or_eq_true, decide_eq_true_eq] at h
  rcases h with h | rfl
  · simp [isWordChar, Char.isAlphanum, h]
  · rfl

theorem not_isDigit_of_isWordStart (h : isWordStart c = true) : c.isDigit = false := by
  refine Bool.eq_false_iff.2 fun hdigit => ?_
  have hle : c.toNat ≤ '9'.toNat := (Char.isDigit_iff_toNat.1 hdigit).2
  simp only [isWordStart, Bool.or_eq_true, decide_eq_true_eq] at h
  rcases h with h | rfl
  · rcases Bool.or_eq_true_iff.1 (show (c.isUpper || c.isLower) = true from h) with h | h
    · have hfirst : 'A'.val ≤ c.val := (of_decide_eq_true h).1
      exact absurd (Nat.le_trans (UInt32.le_iff_toNat_le.1 hfirst) hle) (by decide)
    · have hfirst : 'a'.val ≤ c.val := of_decide_eq_true (Bool.and_eq_true_iff.1 h).1
      exact absurd (Nat.le_trans (UInt32.le_iff_toNat_le.1 hfirst) hle) (by decide)
  · simp at hdigit

theorem IsWord.isWordChar (h : IsWord text) : ∀ c ∈ text, isWordChar c = true := by
  obtain ⟨c, tail, rfl, hc, hlength⟩ := exists_of_wordSize h.1
  rw [List.length_cons, Nat.add_right_cancel_iff] at hlength
  have htail : tail.takeWhile Lexeme.isWordChar = tail :=
    (List.takeWhile_sublist _).eq_of_length hlength.symm
  intro d hd
  rcases List.mem_cons.1 hd with rfl | hd
  · exact isWordChar_of_isWordStart hc
  · exact List.takeWhile_eq_self_iff.1 htail d hd

theorem not_isLineBreak_of_isWordChar (h : isWordChar c = true) : isLineBreak c = false := by
  refine isLineBreak_eq_false.2 ?_
  constructor <;> (rintro rfl; simp [Lexeme.isWordChar] at h)

/-- What begins neither with a digit nor with a point nor with `inf` is no numeral. -/
theorem numeralSize_eq_none (hdigit : c.isDigit = false) (hpoint : c ≠ '.')
    (hinfinite : startsInfinite (c :: tail) = false) : numeralSize? (c :: tail) = none := by
  have hcount : digitCount (c :: tail) = 0 := by simp [digitCount, hdigit]
  unfold numeralSize?
  rw [hinfinite, if_neg Bool.false_ne_true, hcount, if_neg (Nat.lt_irrefl 0)]
  simp [hpoint]

theorem takeWhile_of_startsInfinite (h : startsInfinite text = true) :
    text.takeWhile isWordChar = ['i', 'n', 'f'] := by
  unfold startsInfinite at h
  split at h
  · rename_i rest
    have hrest : ∀ c ∈ rest.head?, isWordChar c = false := by
      rcases rest with _ | ⟨c, rest⟩
      · simp
      · simpa using h
    have hword : ∀ c ∈ ['i', 'n', 'f'], isWordChar c = true := by simp [isWordChar]
    exact takeWhile_append_of_head hword hrest
  · simp at h

/-- A word is scanned as a name. -/
theorem scan_word (h : IsWord text) (hrest : EndsWord rest) :
    ∃ lexeme, scan? (text ++ rest) = some lexeme ∧ lexeme.kind = .name ∧
      lexeme.size = text.length := by
  obtain ⟨c, tail, rfl, hc, -⟩ := exists_of_wordSize h.1
  have hchars := h.isWordChar
  have hbreak : isLineBreak c = false := not_isLineBreak_of_isWordChar (hchars c List.mem_cons_self)
  have hmark : c.isDigit = false ∧ c ≠ '#' ∧ c ≠ '.' ∧ c ≠ '"' ∧ c ≠ '\'' := by
    refine ⟨not_isDigit_of_isWordStart hc, ?_, ?_, ?_, ?_⟩
    all_goals (rintro rfl; simp [isWordStart] at hc)
  have htake : (c :: tail ++ rest).takeWhile isWordChar = c :: tail :=
    takeWhile_append_of_head hchars hrest
  have hinfinite : startsInfinite (c :: tail ++ rest) = false :=
    Bool.eq_false_iff.2 fun hinfinite => h.2 (htake ▸ takeWhile_of_startsInfinite hinfinite)
  have hsize : wordSize? (c :: tail ++ rest) = some (tail.length + 1) := by
    rw [List.cons_append, wordSize?, if_pos hc]
    rw [List.cons_append, List.takeWhile_cons_of_pos (hchars c List.mem_cons_self)] at htake
    rw [(List.cons.inj htake).2, Nat.add_comm]
  refine ⟨⟨.name, tail.length + 1, Nat.succ_pos _⟩, ?_, rfl, rfl⟩
  rw [List.cons_append] at hinfinite hsize ⊢
  rw [scan?, lineBreakSize_of_cons hbreak, numeralSize_eq_none hmark.1 hmark.2.2.1 hinfinite, hsize]
  simp [commentSize?, quoteSize?, hmark, ofSize?]

/-- A numeral is scanned as a number. -/
theorem scan_numeral (hc : c.isDigit = true ∨ c = 'i')
    (h : numeralSize? (c :: tail ++ rest) = some (tail.length + 1)) :
    ∃ lexeme, scan? (c :: tail ++ rest) = some lexeme ∧ lexeme.kind = .number ∧
      lexeme.size = (c :: tail).length := by
  have hbreak : isLineBreak c = false := by
    refine isLineBreak_eq_false.2 ?_
    constructor <;> (rintro rfl; simp at hc)
  have hmark : c ≠ '#' := by
    rintro rfl
    simp at hc
  refine ⟨⟨.number, tail.length + 1, Nat.succ_pos _⟩, ?_, rfl, rfl⟩
  rw [List.cons_append] at h ⊢
  rw [scan?, lineBreakSize_of_cons hbreak, h]
  simp [commentSize?, hmark, ofSize?]

/-- Escaped text in quotes is scanned as a string. -/
theorem scan_enclose {quote : Char} {escape : Char → List Char} {text : String}
    (hquote : IsQuote quote) (h : ∀ c ∈ text.toList, IsEscaped quote c (escape c))
    (rest : List Char) :
    ∃ lexeme, scan? ((enclose quote escape text).toList ++ rest) = some lexeme ∧
      lexeme.kind = .string ∧ lexeme.size = (enclose quote escape text).toList.length := by
  have hsize := quoteSize_enclose hquote h rest
  have hplain : quote.isDigit = false ∧ quote ≠ '.' ∧ quote ≠ '#' ∧ quote ≠ 'i' := by
    rcases hquote with rfl | rfl <;> decide
  rw [toList_enclose, List.length_cons] at hsize ⊢
  rw [List.cons_append] at hsize ⊢
  have hinfinite : ∀ tail, startsInfinite (quote :: tail) = false := fun tail => by
    unfold startsInfinite
    split
    · rename_i heq
      exact absurd (List.cons.inj heq).1 hplain.2.2.2
    · rfl
  refine ⟨⟨.string, _, Nat.succ_pos _⟩, ?_, rfl, rfl⟩
  rw [scan?, lineBreakSize_of_cons hquote.isLineBreak,
    numeralSize_eq_none hplain.1 hplain.2.1 (hinfinite _), hsize]
  simp [commentSize?, hplain.2.2.1, ofSize?]

/-- What begins with the character of a mark can be a mark only. -/
theorem scan_eq_punctuation (hdigit : c.isDigit = false) (hbreak : isLineBreak c = false)
    (hstart : isWordStart c = false) (hmark : c ∉ ['#', '.', '"', '\'']) :
    scan? (c :: tail) = punctuation? (c :: tail) := by
  simp only [List.mem_cons, List.not_mem_nil, or_false, not_or] at hmark
  have hinfinite : startsInfinite (c :: tail) = false := by
    refine Bool.eq_false_iff.2 fun h => ?_
    have hword := takeWhile_of_startsInfinite h
    obtain rfl : c = 'i' := by
      by_cases hc : isWordChar c = true
      · rw [List.takeWhile_cons_of_pos hc] at hword
        exact (List.cons.inj hword).1
      · rw [List.takeWhile_cons_of_neg hc] at hword
        simp at hword
    simp [isWordStart] at hstart
  rw [scan?, lineBreakSize_of_cons hbreak, numeralSize_eq_none hdigit hmark.2.1 hinfinite]
  simp [commentSize?, quoteSize?, wordSize?, hmark, hstart, ofSize?]

/-- What the marks begin with begins nothing else. -/
theorem exists_of_mem_punctuation : ∀ entry ∈ TokenKind.punctuation, ∃ c tail, entry.1 = c :: tail ∧
    c.isDigit = false ∧ isLineBreak c = false ∧ isWordStart c = false ∧
    c ∉ ['#', '.', '"', '\''] := by
  simp [TokenKind.punctuation, isLineBreak, isWordStart]

/-- A mark is scanned, if no second star or slash comes after a single one. -/
theorem scan_punctuation {spelling : List Char} {kind : TokenKind}
    (hentry : (spelling, kind) ∈ TokenKind.punctuation)
    (hrest : ∀ c ∈ ['*', '/'], spelling = [c] → c ∉ rest.head?) :
    ∃ lexeme, scan? (spelling ++ rest) = some lexeme ∧ lexeme.kind = kind ∧
      lexeme.size = spelling.length := by
  -- only a star and a slash begin longer marks
  have hfind : TokenKind.punctuation.find? (fun entry => entry.1.isPrefixOf (spelling ++ rest)) =
      some (spelling, kind) := by
    simp only [TokenKind.punctuation, List.mem_cons, Prod.mk.injEq, List.not_mem_nil, or_false]
      at hentry
    rcases hentry with ⟨rfl, rfl⟩ | ⟨rfl, rfl⟩ | ⟨rfl, rfl⟩ | ⟨rfl, rfl⟩ | ⟨rfl, rfl⟩ | ⟨rfl, rfl⟩ |
      ⟨rfl, rfl⟩ | ⟨rfl, rfl⟩ | ⟨rfl, rfl⟩ | ⟨rfl, rfl⟩ | ⟨rfl, rfl⟩ | ⟨rfl, rfl⟩ |
      ⟨rfl, rfl⟩ | ⟨rfl, rfl⟩
    all_goals try rfl
    · have hstar := hrest '*' (by simp) rfl
      rcases rest with _ | ⟨d, rest⟩
      · rfl
      · have hne : ('*' == d) = false := beq_eq_false_iff_ne.2 fun h => hstar (h ▸ rfl)
        simp [TokenKind.punctuation, List.find?, List.isPrefixOf, hne]
    · have hslash := hrest '/' (by simp) rfl
      rcases rest with _ | ⟨d, rest⟩
      · rfl
      · have hne : ('/' == d) = false := beq_eq_false_iff_ne.2 fun h => hslash (h ▸ rfl)
        simp [TokenKind.punctuation, List.find?, List.isPrefixOf, hne]
  obtain ⟨c, tail, rfl, hdigit, hbreak, hstart, hmark⟩ := exists_of_mem_punctuation _ hentry
  refine ⟨⟨kind, tail.length + 1, Nat.succ_pos _⟩, ?_, rfl, rfl⟩
  rw [List.cons_append] at hfind ⊢
  rw [scan_eq_punctuation hdigit hbreak hstart hmark, punctuation?, hfind]
  rfl

/-- A blank is not the beginning of a lexeme. -/
theorem not_isBlank_of_scan {lexeme : Lexeme} (h : scan? (c :: tail) = some lexeme) :
    Lexer.isBlank c = false := by
  refine Bool.eq_false_iff.2 fun hblank => ?_
  have hnone : scan? (c :: tail) = none := by
    rcases (by simpa [Lexer.isBlank] using hblank : c = ' ' ∨ c = '\t') with rfl | rfl
    all_goals exact scan_eq_punctuation rfl rfl rfl (by decide)
  simp [hnone] at h

end Lexeme

/-! ## Symbols -/

namespace Symbol

open Lexeme

variable {rest : List Char}

theorem scans_name {w : String} (h : IsWord w.toList) (hrest : EndsWord rest) :
    (name w).Scans rest where
  unbroken c hc := not_isLineBreak_of_isWordChar (h.isWordChar c hc)
  scan := scan_word h hrest
  literal := by simp [literal?, name, mark]

/-- A number is scanned where its numeral ends. -/
theorem scans_number_of_numeralSize {n : Number} (h : n.IsReadable)
    (hsize : numeralSize? (n.render.toList ++ rest) = some n.render.toList.length) :
    (number n).Scans rest := by
  obtain ⟨hchars, c, tail, heq, hc⟩ := Number.isWordChar_of_mem_render h
  refine ⟨fun d hd => not_isLineBreak_of_isWordChar (hchars d hd), ?_, ?_⟩
  · rw [heq] at hsize
    change ∃ lexeme, scan? (n.render.toList ++ rest) = some lexeme ∧ _ ∧
      lexeme.size = n.render.toList.length
    rw [heq]
    exact scan_numeral hc hsize
  · simp [literal?, number, Number.numeralValue_render h]

theorem scans_number {n : Number} (h : n.IsReadable) (hrest : EndsWord rest) :
    (number n).Scans rest :=
  scans_number_of_numeralSize h (Number.numeralSize_render h hrest)

theorem scans_count {n : Nat} (h : n < Number.integerLimit) (hrest : EndsNumeral rest) :
    (number (.integer n)).Scans rest :=
  scans_number_of_numeralSize ⟨Int.natCast_nonneg n, Int.ofNat_lt.2 h⟩
    (Number.numeralSize_integer n hrest)

theorem scans_enclose {quote : Char} {escape : Char → List Char} {text : String}
    (hquote : Text.IsQuote quote) (h : ∀ c ∈ text.toList, Text.IsEscaped quote c (escape c))
    (rest : List Char) :
    ({ kind := .string, text := Text.enclose quote escape text,
       literal := .text text } : Symbol).Scans rest where
  unbroken := isLineBreak_of_mem_enclose hquote h
  scan := scan_enclose hquote h rest
  literal := by simp [literal?, unquote_enclose h]

theorem scans_quoted {text : String} (h : ∀ c ∈ text.toList, Text.IsWritable c) (rest : List Char) :
    (quoted text).Scans rest :=
  scans_enclose (.inl rfl) (fun c hc => Text.isEscaped_escapeChar (h c hc)) rest

theorem scans_mark {kind : TokenKind} {spelling : String}
    (hentry : (spelling.toList, kind) ∈ TokenKind.punctuation)
    (hrest : ∀ c ∈ ['*', '/'], spelling.toList = [c] → c ∉ rest.head?) :
    (mark kind spelling).Scans rest where
  unbroken := by
    have hunbroken : ∀ entry ∈ TokenKind.punctuation, ∀ c ∈ entry.1,
        Text.isLineBreak c = false := by
      simp [TokenKind.punctuation, Text.isLineBreak]
    exact hunbroken _ hentry
  scan := scan_punctuation hentry hrest
  literal := by
    have hplain : ∀ entry ∈ TokenKind.punctuation, entry.2 ≠ .number ∧
      entry.2 ≠ .string := by decide
    obtain ⟨hnumber, hstring⟩ := hplain _ hentry
    change literal? kind spelling.toList = some (.text spelling)
    unfold literal?
    split
    · exact absurd rfl hnumber
    · exact absurd rfl hstring
    · rw [String.ofList_toList]

/-- A mark other than a star and a slash is scanned before anything. -/
theorem scans_plain {kind : TokenKind} {spelling : String}
    (hentry : (spelling.toList, kind) ∈ TokenKind.punctuation)
    (hplain : spelling ≠ "*" ∧ spelling ≠ "/") (rest : List Char) :
    (mark kind spelling).Scans rest := by
  refine scans_mark hentry fun c hc heq => ?_
  rcases List.mem_pair.1 hc with rfl | rfl
  · exact absurd (String.toList_inj.1 heq) hplain.1
  · exact absurd (String.toList_inj.1 heq) hplain.2

end Symbol

end OpticScript
