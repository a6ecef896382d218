import Mathlib.Data.List.TakeWhile
import OpticScript.Lexer

/-!
# Lines and lexemes

The lines of a text that ends in a line feed, and then those of what follows it, are the
lines of the whole text (`lines_append`). A line ends at its first line break
(`IsLine`), and only the last line of a text may lack one (`endsLine_of_mem_dropLast`).

No lexeme goes on past the end of a line : a line break is one lexeme, and any other is
no longer than what stands before it (`scan_line`).
-/

namespace OpticScript

namespace Text

/-- The number of characters before the first line break. -/
def bodyLength (text : List Char) : Nat := (text.takeWhile fun c => !isLineBreak c).length

/-- There is at most one line break, and nothing comes after it. -/
def IsLine (text : List Char) : Prop :=
  text.drop (bodyLength text) ∈ [[], ['\n'], ['\r'], ['\r', '\n']]

/-- The text ends in a line break. -/
def EndsLine (text : List Char) : Prop := text.getLast?.any isLineBreak = true

theorem isLineBreak_iff {c : Char} : isLineBreak c = true ↔ c = '\n' ∨ c = '\r' := by
  simp [isLineBreak]

theorem isLineBreak_eq_false {c : Char} : isLineBreak c = false ↔ c ≠ '\n' ∧ c ≠ '\r' := by
  simp [isLineBreak]

theorem isLineBreak_of_isBlank {c : Char} (h : Lexer.isBlank c = true) : isLineBreak c = false := by
  refine isLineBreak_eq_false.2 ?_
  constructor <;> (rintro rfl; simp [Lexer.isBlank] at h)

@[simp] theorem bodyLength_cons (c : Char) (text : List Char) :
    bodyLength (c :: text) = if isLineBreak c then 0 else bodyLength text + 1 := by
  cases h : isLineBreak c <;> simp [bodyLength, h]

theorem bodyLength_le_append (text more : List Char) :
    bodyLength text ≤ bodyLength (text ++ more) := by
  induction text with
  | nil => exact Nat.zero_le _
  | cons c text ih => cases h : isLineBreak c <;> simp [h, ih]

theorem bodyLength_drop : ∀ {n : Nat} {text : List Char}, n ≤ bodyLength text →
    bodyLength (text.drop n) = bodyLength text - n
  | 0, _, _ => rfl
  | n + 1, [], h => by simp [bodyLength] at h
  | n + 1, c :: text, h => by
    cases hc : isLineBreak c
    · simp only [bodyLength_cons, hc, Bool.false_eq_true, if_false] at h ⊢
      rw [List.drop_succ_cons, bodyLength_drop (by omega)]
      omega
    · simp [hc] at h

theorem takeWhile_length_le_bodyLength {p : Char → Bool}
    (hp : ∀ c, p c = true → isLineBreak c = false)
    (text : List Char) : (text.takeWhile p).length ≤ bodyLength text := by
  induction text with
  | nil => exact Nat.le_refl _
  | cons c text ih =>
    cases h : p c
    · simp [h]
    · simpa [h, hp c h] using ih

theorem IsLine.drop {text : List Char} {n : Nat} (h : IsLine text) (hn : n ≤ bodyLength text) :
    IsLine (text.drop n) := by
  rw [IsLine, bodyLength_drop hn, List.drop_drop, Nat.add_sub_cancel' hn]
  exact h

theorem bodyLength_le_length (text : List Char) : bodyLength text ≤ text.length :=
  (List.takeWhile_sublist _).length_le

/-- A line without its end. -/
abbrev body (line : List Char) : List Char := line.takeWhile fun c => !isLineBreak c

theorem body_append {part rest : List Char} (h : ∀ c ∈ part, isLineBreak c = false) :
    body (part ++ rest) = part ++ body rest := by
  rw [body, List.takeWhile_append_of_pos (by simpa using h)]

theorem take_prefix_body {text : List Char} {n : Nat} (h : n ≤ bodyLength text) :
    text.take n <+: body text :=
  List.prefix_of_prefix_length_le (List.take_prefix _ _) (List.takeWhile_prefix _)
    ((List.length_take_le _ _).trans h)

theorem body_eq_take (text : List Char) : body text = text.take (bodyLength text) :=
  List.prefix_iff_eq_take.1 (List.takeWhile_prefix _)

theorem EndsLine.bodyLength_lt {text : List Char} (h : EndsLine text) :
    bodyLength text < text.length := by
  refine Nat.lt_of_le_of_ne (bodyLength_le_length text) fun heq => ?_
  have hall : (text.takeWhile fun c => !isLineBreak c) = text :=
    (List.takeWhile_prefix _).eq_of_length heq
  obtain ⟨c, hc, hbreak⟩ : ∃ c, text.getLast? = some c ∧ isLineBreak c = true := by
    simpa [EndsLine, Option.any_eq_true] using h
  have hmem : c ∈ text.takeWhile fun c => !isLineBreak c := hall.symm ▸ List.mem_of_getLast? hc
  simpa [hbreak] using List.mem_takeWhile_imp hmem

theorem EndsLine.ne_nil {text : List Char} (h : EndsLine text) : text ≠ [] := by
  rintro rfl
  simp [EndsLine] at h

theorem EndsLine.append {text : List Char} (h : EndsLine text) (before : List Char) :
    EndsLine (before ++ text) := by
  obtain ⟨c, hc, hbreak⟩ := (Option.any_eq_true _ _).1 h
  simp [EndsLine, List.getLast?_append, hc, hbreak]

/-- A line of nothing but a line break. -/
theorem IsLine.endsLine {text : List Char} (h : IsLine text) (hne : text ≠ [])
    (hbody : bodyLength text = 0) : EndsLine text := by
  rw [IsLine, hbody, List.drop_zero] at h
  rcases (by simpa [hne] using h : text = ['\n'] ∨ text = ['\r'] ∨ text = ['\r', '\n']) with
    rfl | rfl | rfl <;> rfl

theorem isLineBreak_of_mem_take {text : List Char} {n : Nat} (hn : n ≤ bodyLength text) {c : Char}
    (hc : c ∈ text.take n) : isLineBreak c = false := by
  simpa using List.mem_takeWhile_imp ((take_prefix_body hn).subset hc)

theorem EndsLine.drop {text : List Char} {n : Nat} (h : EndsLine text) (hn : text.drop n ≠ []) :
    EndsLine (text.drop n) := by
  rw [EndsLine, List.getLast?_drop]
  have hlt : ¬text.length ≤ n := fun hle => hn (List.drop_eq_nil_of_le hle)
  simpa [EndsLine, hlt] using h

/-! ## The lines of a text -/

theorem lines_eq_nil {text : List Char} (h : lines text = []) : text = [] := by
  rw [← flatten_lines text, h]
  rfl

/-- The lines of what follows a line feed come after the lines before it. -/
theorem lines_append {a : List Char} (ha : ∀ c ∈ a.getLast?, c = '\n') (b : List Char) :
    lines (a ++ b) = lines a ++ lines b := by
  have htail : ∀ {c : Char} {rest : List Char}, (∀ x ∈ (c :: rest).getLast?, x = '\n') →
      ∀ x ∈ rest.getLast?, x = '\n' := by
    intro c rest h x hx
    refine h x ?_
    cases rest with
    | nil => simp at hx
    | cons d rest => simpa [List.getLast?_cons] using hx
  fun_induction lines a with
  | case1 => rfl
  | case2 rest ih => simp [lines, ih (htail (htail ha))]
  | case3 c rest hne hc ih =>
    rw [List.cons_append, lines, if_pos hc, ih (htail ha)]
    · rfl
    · -- a carriage return is not the last character
      rintro rest' rfl happ
      cases rest with
      | nil => simp at ha
      | cons d rest =>
        obtain ⟨rfl, -⟩ := List.cons.inj happ
        exact hne rest rfl rfl
  | case4 c rest hne hc hnil ih =>
    obtain rfl := lines_eq_nil hnil
    obtain rfl : c = '\n' := by simpa using ha
    simp [isLineBreak] at hc
  | case5 c rest hne hc line more hlines ih =>
    rw [List.cons_append, lines, if_neg hc, ih (htail ha), hlines]
    · rfl
    · rintro rest' rfl
      simp [isLineBreak] at hc

theorem isLine_of_mem_lines {text line : List Char} (h : line ∈ lines text) : IsLine line := by
  fun_induction lines text generalizing line with
  | case1 => simp at h
  | case2 rest ih =>
    rcases List.mem_cons.1 h with rfl | h
    · simp [IsLine, isLineBreak]
    · exact ih h
  | case3 c rest _ hc ih =>
    rcases List.mem_cons.1 h with rfl | h
    · rcases isLineBreak_iff.1 hc with rfl | rfl <;> simp [IsLine, isLineBreak]
    · exact ih h
  | case4 c rest _ hc _ ih =>
    obtain rfl : line = [c] := by simpa using h
    simp [IsLine, hc, bodyLength]
  | case5 c rest _ hc first more hlines ih =>
    rcases List.mem_cons.1 h with rfl | h
    · have hfirst : IsLine first := ih (by simp [hlines])
      simpa [IsLine, hc] using hfirst
    · exact ih (by simp [hlines, h])

/-- Only the last line of a text may lack a line break. -/
theorem endsLine_of_mem_dropLast {text line : List Char} (h : line ∈ (lines text).dropLast) :
    EndsLine line := by
  fun_induction lines text generalizing line with
  | case1 => simp at h
  | case2 rest ih =>
    rcases hrest : lines rest with _ | ⟨next, more⟩
    · simp [hrest] at h
    · rw [hrest, List.dropLast_cons_cons] at h
      rcases List.mem_cons.1 h with rfl | h
      · simp [EndsLine, isLineBreak]
      · exact ih (by rwa [hrest])
  | case3 c rest _ hc ih =>
    rcases hrest : lines rest with _ | ⟨next, more⟩
    · simp [hrest] at h
    · rw [hrest, List.dropLast_cons_cons] at h
      rcases List.mem_cons.1 h with rfl | h
      · simpa [EndsLine] using hc
      · exact ih (by rwa [hrest])
  | case4 c rest _ hc _ ih => simp at h
  | case5 c rest _ hc first more hlines ih =>
    rcases more with _ | ⟨next, more⟩
    · simp at h
    · rw [List.dropLast_cons_cons] at h
      rcases List.mem_cons.1 h with rfl | h
      · have hfirst : EndsLine first := ih (by simp [hlines])
        obtain ⟨d, rest', rfl⟩ := List.exists_cons_of_ne_nil hfirst.ne_nil
        simpa [EndsLine, List.getLast?_cons] using hfirst
      · exact ih (by rw [hlines, List.dropLast_cons_cons]; exact List.mem_cons_of_mem _ h)

end Text

/-! ## Lexemes -/

namespace Lexeme

open Text

theorem digitCount_le (text : List Char) : digitCount text ≤ bodyLength text := by
  refine takeWhile_length_le_bodyLength (fun c hc => isLineBreak_eq_false.2 ?_) text
  constructor <;> (rintro rfl; simp at hc)

theorem digitCount_drop_le {text : List Char} {n : Nat} (hn : n ≤ bodyLength text) :
    n + digitCount (text.drop n) ≤ bodyLength text := by
  have hcount := digitCount_le (text.drop n)
  rw [bodyLength_drop hn] at hcount
  omega

theorem exponentSize_le {text : List Char} {n : Nat} (h : exponentSize? text = some n) :
    n ≤ bodyLength text := by
  rcases text with _ | ⟨c, rest⟩
  · simp [exponentSize?] at h
  · unfold exponentSize? at h
    dsimp only at h
    split at h
    · rename_i hc
      have hbreak : isLineBreak c = false := by
        rcases (by simpa using hc : c = 'e' ∨ c = 'E') with rfl | rfl <;> rfl
      have hsign : (if startsSigned rest then 1 else 0) ≤ bodyLength rest := by
        split
        · rename_i hsigned
          rcases rest with _ | ⟨d, rest⟩
          · simp [startsSigned] at hsigned
          · rcases (by simpa [startsSigned] using hsigned : d = '+' ∨ d = '-') with rfl | rfl <;>
              simp [isLineBreak]
        · exact Nat.zero_le _
      have hdigits := digitCount_drop_le hsign
      rw [bodyLength_cons, hbreak, if_neg Bool.false_ne_true]
      grind
    · simp at h

theorem fractionSize_le (text : List Char) : fractionSize text ≤ bodyLength text := by
  have hdigits := digitCount_le text
  unfold fractionSize exponentSize
  cases h : exponentSize? (text.drop (digitCount text)) with
  | none => simpa using hdigits
  | some n =>
    have hexponent := exponentSize_le h
    rw [bodyLength_drop hdigits] at hexponent
    simp only [Option.getD_some]
    omega

theorem numeralSizeAfter_le {text : List Char} {whole : Nat} (h : whole ≤ bodyLength text) :
    numeralSizeAfter text whole (text.drop whole) ≤ bodyLength text := by
  have hrest := bodyLength_drop h
  have hzeros : (text.takeWhile (· = '0')).length ≤ bodyLength text :=
    takeWhile_length_le_bodyLength (fun c hc => by
      obtain rfl : c = '0' := by simpa using hc
      rfl) text
  unfold numeralSizeAfter
  split
  · rename_i fraction hfraction
    have hsize := fractionSize_le fraction
    rw [hfraction, bodyLength_cons, if_neg (by decide)] at hrest
    omega
  · split
    · rename_i exponent hexponent
      have hsize := exponentSize_le hexponent
      omega
    · split <;> assumption

theorem numeralSize_le {text : List Char} {n : Nat} (h : numeralSize? text = some n) :
    n ≤ bodyLength text := by
  unfold numeralSize? at h
  split at h
  · rename_i hinfinite
    unfold startsInfinite at hinfinite
    split at hinfinite
    · obtain rfl := Option.some.inj h
      simp [isLineBreak]
    · simp at hinfinite
  · split at h
    · obtain rfl := Option.some.inj h
      exact numeralSizeAfter_le (digitCount_le text)
    · split at h
      · rename_i fraction _ _
        split at h
        · obtain rfl := Option.some.inj h
          have hsize := fractionSize_le fraction
          rw [bodyLength_cons, if_neg (by decide)]
          omega
        · simp at h
      · simp at h

/-- A backslash keeps a line break from ending a string only if there is more of the line. -/
theorem closingSize_le {quote : Char} {text : List Char} {n : Nat} (hline : IsLine text)
    (h : closingSize? quote text = some n) : n ≤ bodyLength text := by
  fun_induction closingSize? quote text generalizing n with
  | case1 => simp at h
  | case2 => simp at h
  | case3 c rest ih =>
    obtain ⟨m, hm, rfl⟩ : ∃ m, closingSize? quote rest = some m ∧ m + 2 = n := by simpa using h
    have hbreak : isLineBreak '\\' = false := rfl
    cases hc : isLineBreak c with
    | false =>
      have hrest : IsLine rest := by
        have := hline.drop (n := 2) (by simp [hbreak, hc])
        simpa using this
      have := ih hrest hm
      simp only [bodyLength_cons, hbreak, hc, Bool.false_eq_true, if_false]
      omega
    | true =>
      -- nothing but a line feed can come after the break
      have hbody : bodyLength ('\\' :: c :: rest) = 1 := by simp [hbreak, hc]
      rw [IsLine, hbody] at hline
      have hrest : rest = [] ∨ rest = ['\n'] := by
        rcases (by simpa using hline :
          (c = '\n' ∧ rest = []) ∨ (c = '\r' ∧ rest = []) ∨ c = '\r' ∧ rest = ['\n']) with
          ⟨-, h⟩ | ⟨-, h⟩ | ⟨-, h⟩ <;> simp [h]
      rcases hrest with rfl | rfl <;> simp [closingSize?, isLineBreak] at hm
  | case4 c rest _ _ hc => simp at h
  | case5 rest _ _ hc =>
    obtain rfl := Option.some.inj h
    simp [hc]
  | case6 c rest _ _ hc hquote ih =>
    obtain ⟨m, hm, rfl⟩ : ∃ m, closingSize? quote rest = some m ∧ m + 1 = n := by simpa using h
    have hrest : IsLine rest := by
      have := hline.drop (n := 1) (by simp [hc])
      simpa using this
    have := ih hrest hm
    rw [bodyLength_cons, if_neg hc]
    omega

theorem quoteSize_le {text : List Char} {n : Nat} (hline : IsLine text)
    (h : quoteSize? text = some n) : n ≤ bodyLength text := by
  rcases text with _ | ⟨c, rest⟩
  · simp [quoteSize?] at h
  · unfold quoteSize? at h
    dsimp only at h
    split at h
    · rename_i hc
      obtain ⟨m, hm, rfl⟩ : ∃ m, closingSize? c rest = some m ∧ m + 1 = n := by simpa using h
      have hbreak : isLineBreak c = false := by
        rcases (by simpa using hc : c = '"' ∨ c = '\'') with rfl | rfl <;> rfl
      have hrest : IsLine rest := by
        have := hline.drop (n := 1) (by simp [hbreak])
        simpa using this
      have := closingSize_le hrest hm
      simp only [bodyLength_cons, hbreak, Bool.false_eq_true, if_false]
      omega
    · simp at h

theorem wordSize_le {text : List Char} {n : Nat} (h : wordSize? text = some n) :
    n ≤ bodyLength text := by
  rcases text with _ | ⟨c, rest⟩
  · simp [wordSize?] at h
  · unfold wordSize? at h
    dsimp only at h
    split at h
    · rename_i hc
      obtain rfl := Option.some.inj h
      have hword : ∀ d, isWordChar d = true → isLineBreak d = false := by
        intro d hd
        refine isLineBreak_eq_false.2 ?_
        constructor <;> (rintro rfl; simp [isWordChar] at hd)
      have hbreak : isLineBreak c = false := hword c (by
        rcases (by simpa [isWordStart] using hc : c.isAlpha = true ∨ c = '_') with hc | hc <;>
          simp [isWordChar, Char.isAlphanum, hc])
      have := takeWhile_length_le_bodyLength hword rest
      rw [bodyLength_cons, hbreak, if_neg Bool.false_ne_true]
      omega
    · simp at h

theorem commentSize_le {text : List Char} {n : Nat} (h : commentSize? text = some n) :
    n ≤ bodyLength text := by
  unfold commentSize? at h
  split at h
  · obtain rfl := Option.some.inj h
    rw [bodyLength_cons, if_neg (by decide), Nat.add_comm]
    exact Nat.le_refl _
  · simp at h

theorem kind_of_ofSize {kind : TokenKind} {size : Option Nat} {lexeme : Lexeme}
    (h : ofSize? kind size = some lexeme) : lexeme.kind = kind ∧ size = some lexeme.size := by
  unfold ofSize? at h
  split at h
  · obtain rfl := Option.some.inj h
    exact ⟨rfl, rfl⟩
  · simp at h

theorem punctuation_table : ∀ entry ∈ TokenKind.punctuation,
    bodyLength entry.1 = entry.1.length ∧ entry.2 ≠ .newline ∧ entry.2 ≠ .endMarker := by
  decide

/-- A punctuation mark is spelled as the table says. -/
theorem exists_punctuation {text : List Char} {lexeme : Lexeme}
    (h : punctuation? text = some lexeme) :
    ∃ spelling rest, text = spelling ++ rest ∧ lexeme.size = spelling.length ∧
      (spelling, lexeme.kind) ∈ TokenKind.punctuation := by
  unfold punctuation? at h
  split at h
  · rename_i spelling kind hfind
    obtain ⟨rfl, hsize⟩ := kind_of_ofSize h
    obtain ⟨rest, rfl⟩ : spelling <+: text := by simpa using List.find?_some hfind
    exact ⟨spelling, rest, rfl, (Option.some.inj hsize).symm, List.mem_of_find?_eq_some hfind⟩
  · simp at h

theorem punctuation_le {text : List Char} {lexeme : Lexeme} (h : punctuation? text = some lexeme) :
    lexeme.size ≤ bodyLength text ∧ lexeme.kind ≠ .newline ∧ lexeme.kind ≠ .endMarker := by
  obtain ⟨spelling, rest, rfl, hsize, hmem⟩ := exists_punctuation h
  obtain ⟨hbody, hkind⟩ := punctuation_table _ hmem
  refine ⟨?_, hkind⟩
  rw [hsize, ← hbody]
  exact bodyLength_le_append spelling rest

/-- A lexeme that begins before the end of a line ends there at the latest. -/
theorem size_le_bodyLength {text : List Char} (hline : IsLine text) (hbody : 0 < bodyLength text)
    {lexeme : Lexeme} (h : scan? text = some lexeme) :
    lexeme.size ≤ bodyLength text ∧ lexeme.kind ≠ .newline ∧ lexeme.kind ≠ .endMarker := by
  have hbreak : lineBreakSize? text = none := by
    rcases text with _ | ⟨c, rest⟩
    · rfl
    · have hc : isLineBreak c = false := by
        cases hc : isLineBreak c
        · rfl
        · simp [hc] at hbody
      unfold lineBreakSize?
      split
      · simp_all [isLineBreak]
      · simp_all
      · rfl
  have hnewline : ofSize? .newline none = none := rfl
  simp only [scan?, hbreak, hnewline, Option.none_or, Option.or_eq_some_iff] at h
  rcases h with (((hcomment | ⟨-, hnumber⟩) | ⟨-, hstring⟩) | ⟨-, hname⟩) | ⟨-, hpunctuation⟩
  · obtain ⟨hkind, hsize⟩ := kind_of_ofSize hcomment
    exact ⟨commentSize_le hsize, by simp [hkind], by simp [hkind]⟩
  · obtain ⟨hkind, hsize⟩ := kind_of_ofSize hnumber
    exact ⟨numeralSize_le hsize, by simp [hkind], by simp [hkind]⟩
  · obtain ⟨hkind, hsize⟩ := kind_of_ofSize hstring
    exact ⟨quoteSize_le hline hsize, by simp [hkind], by simp [hkind]⟩
  · obtain ⟨hkind, hsize⟩ := kind_of_ofSize hname
    exact ⟨wordSize_le hsize, by simp [hkind], by simp [hkind]⟩
  · exact punctuation_le hpunctuation

/-- A line break is a lexeme of its own. -/
theorem scan_lineBreak {text : List Char} (hline : IsLine text) (hne : text ≠ [])
    (hbody : bodyLength text = 0) :
    ∃ lexeme, scan? text = some lexeme ∧ lexeme.kind = .newline ∧ lexeme.size = text.length := by
  rw [IsLine, hbody, List.drop_zero] at hline
  rcases (by simpa [hne] using hline : text = ['\n'] ∨ text = ['\r'] ∨ text = ['\r', '\n']) with
    rfl | rfl | rfl
  · exact ⟨⟨.newline, 1, by decide⟩, rfl, rfl, rfl⟩
  · exact ⟨⟨.newline, 1, by decide⟩, rfl, rfl, rfl⟩
  · exact ⟨⟨.newline, 2, by decide⟩, rfl, rfl, rfl⟩

/-- The lexeme that a line begins with is the end of the line or comes before that. -/
theorem scan_line {text : List Char} (hline : IsLine text) (hne : text ≠ []) {lexeme : Lexeme}
    (h : scan? text = some lexeme) :
    (bodyLength text = 0 ∧ lexeme.kind = .newline ∧ lexeme.size = text.length) ∨
      lexeme.size ≤ bodyLength text ∧ lexeme.kind ≠ .newline ∧ lexeme.kind ≠ .endMarker := by
  rcases Nat.eq_zero_or_pos (bodyLength text) with hbody | hbody
  · obtain ⟨lineBreak, hbreak, hkind, hsize⟩ := scan_lineBreak hline hne hbody
    obtain rfl : lineBreak = lexeme := Option.some.inj (hbreak.symm.trans h)
    exact .inl ⟨hbody, hkind, hsize⟩
  · exact .inr (size_le_bodyLength hline hbody h)

end Lexeme

end OpticScript
