import Mathlib.Data.List.Find
import OpticScript.Proofs.Lexer.Lines

/-!
# How far a lexeme is told by

Numerals, words and punctuation end where a blank, a line break, a comma or a comment comes
(`Pauses`) : what is behind it has no bearing on them (`numeralSize_append`, `wordSize_append`,
`punctuation_append`). Strings may go on, but one that is closed is closed whatever comes behind
it, so only a comment is another lexeme in front of a longer text (`scan_of_pauses`). If a
comment does not go on up to a blank, then nothing behind the blank has a bearing on it either, and
so on a lexeme of any kind (`scan_of_append`).
-/

namespace OpticScript.Lexeme

open Lexer (isBlank)
open Text (isLineBreak)

/-- The text is at its end, or a blank, a line break, a comma or a comment comes next. -/
def Pauses (tail : List Char) : Prop :=
  ∀ c ∈ tail.head?, isBlank c = true ∨ isLineBreak c = true ∨ c = ',' ∨ c = '#'

section

variable {tail : List Char}

theorem Pauses.head_not (h : Pauses tail) {p : Char → Bool}
    (hp : ∀ c ∈ [' ', '\t', '\n', '\r', ',', '#'], p c = false) :
    ∀ c ∈ tail.head?, p c = false := fun c hc => by
  refine hp c ?_
  simpa [isBlank, isLineBreak, or_assoc] using h c hc

/-- What comes after the text is no part of a run in it that would not go on. -/
theorem takeWhile_append_of_head_not {p : Char → Bool} (h : ∀ c ∈ tail.head?, p c = false)
    (text : List Char) : (text ++ tail).takeWhile p = text.takeWhile p := by
  have htail : tail.takeWhile p = [] := by
    rcases tail with _ | ⟨c, tail⟩
    · rfl
    · exact List.takeWhile_cons_of_neg (by simp [h c rfl])
  rw [List.takeWhile_append, htail, List.append_nil]
  split
  · rename_i hlength
    exact ((List.takeWhile_sublist p).eq_of_length hlength).symm
  · rfl

theorem isPrefixOf_append {spelling : List Char} (h : ∀ c ∈ tail.head?, c ∉ spelling)
    (text : List Char) : spelling.isPrefixOf (text ++ tail) = spelling.isPrefixOf text := by
  induction spelling generalizing text with
  | nil => rfl
  | cons s spelling ih =>
    rcases text with _ | ⟨c, text⟩
    · rcases tail with _ | ⟨d, tail⟩
      · rfl
      · have hne : s ≠ d := fun heq => h d rfl (heq ▸ List.mem_cons_self)
        simp [List.isPrefixOf, hne]
    · have hrest : ∀ c ∈ tail.head?, c ∉ spelling :=
        fun c hc hmem => h c hc (List.mem_cons_of_mem s hmem)
      simp only [List.cons_append, List.isPrefixOf, ih hrest]

/-! ## Numerals -/

theorem digitCount_append (h : Pauses tail) (text : List Char) :
    digitCount (text ++ tail) = digitCount text :=
  congrArg List.length (takeWhile_append_of_head_not (h.head_not (by simp)) text)

theorem digitCount_le_length (text : List Char) : digitCount text ≤ text.length :=
  (List.takeWhile_sublist _).length_le

theorem startsSigned_append (h : Pauses tail) (text : List Char) :
    startsSigned (text ++ tail) = startsSigned text := by
  rcases text with _ | ⟨c, text⟩
  · rcases tail with _ | ⟨c, tail⟩
    · rfl
    · exact h.head_not (p := fun c => c = '+' || c = '-') (by simp) c rfl
  · rfl

theorem exponentSize_append (h : Pauses tail) (text : List Char) :
    exponentSize? (text ++ tail) = exponentSize? text := by
  rcases text with _ | ⟨c, rest⟩
  · rcases tail with _ | ⟨c, tail⟩
    · rfl
    · have hc := h.head_not (p := fun c => c = 'e' || c = 'E') (by simp) c rfl
      simp only [List.nil_append, exponentSize?, hc, Bool.false_eq_true, if_false]
  · have hsign : (if startsSigned rest then 1 else 0) ≤ rest.length := by
      rcases rest with _ | ⟨d, rest⟩
      · exact Nat.le_refl 0
      · split <;> simp
    simp only [List.cons_append, exponentSize?, startsSigned_append h,
      List.drop_append_of_le_length hsign, digitCount_append h]

theorem fractionSize_append (h : Pauses tail) (text : List Char) :
    fractionSize (text ++ tail) = fractionSize text := by
  simp only [fractionSize, exponentSize, digitCount_append h,
    List.drop_append_of_le_length (digitCount_le_length text), exponentSize_append h]

theorem startsInfinite_eq (text : List Char) : startsInfinite text =
    (['i', 'n', 'f'].isPrefixOf text && !(text.drop 3).head?.any isWordChar) := by
  unfold startsInfinite
  split
  · rfl
  · rename_i hne
    symm
    rw [Bool.and_eq_false_iff]
    refine .inl (Bool.eq_false_iff.2 fun hprefix => ?_)
    obtain ⟨rest, rfl⟩ := List.isPrefixOf_iff_prefix.1 hprefix
    exact hne rest rfl

theorem startsInfinite_append (h : Pauses tail) (text : List Char) :
    startsInfinite (text ++ tail) = startsInfinite text := by
  have hword : ∀ rest : List Char, (rest ++ tail).head?.any isWordChar =
      rest.head?.any isWordChar := by
    rintro (_ | ⟨c, rest⟩)
    · rcases tail with _ | ⟨c, tail⟩
      · rfl
      · exact h.head_not (p := isWordChar) (by simp [isWordChar]) c rfl
    · rfl
  have hinf : ∀ c ∈ tail.head?, c ∉ ['i', 'n', 'f'] := fun c hc => by
    simpa using h.head_not (p := fun c => c ∈ ['i', 'n', 'f']) (by simp) c hc
  rw [startsInfinite_eq, startsInfinite_eq, isPrefixOf_append hinf]
  cases hprefix : ['i', 'n', 'f'].isPrefixOf text
  · rfl
  · have hlength : 3 ≤ text.length := (List.isPrefixOf_iff_prefix.1 hprefix).length_le
    rw [List.drop_append_of_le_length hlength, hword]

theorem numeralSizeAfter_of_head {text rest : List Char} {whole : Nat} (h : rest.head? ≠ some '.') :
    numeralSizeAfter text whole rest = (exponentSize? rest).elim
      (if text.head? = some '0' then (text.takeWhile (· = '0')).length else whole) (whole + ·) := by
  rw [numeralSizeAfter]
  · cases exponentSize? rest <;> rfl
  · rintro fraction rfl
    exact h rfl

theorem head_append_eq_some {c : Char} (h : c ∉ tail.head?) (text : List Char) :
    (text ++ tail).head? = some c ↔ text.head? = some c := by
  rcases text with _ | ⟨d, text⟩
  · exact iff_of_false h (by simp)
  · rfl

theorem numeralSizeAfter_append (h : Pauses tail) (text : List Char) (whole : Nat)
    (rest : List Char) :
    numeralSizeAfter (text ++ tail) whole (rest ++ tail) = numeralSizeAfter text whole rest := by
  have hzeros : (text ++ tail).takeWhile (· = '0') = text.takeWhile (· = '0') :=
    takeWhile_append_of_head_not (h.head_not (by simp)) text
  have hne : ∀ c ∈ ['0', '.'], c ∉ tail.head? := fun c hc hmem => by
    simpa [hc] using h.head_not (p := fun c => c ∈ ['0', '.']) (by simp) c hmem
  have hzero := head_append_eq_some (hne '0' (by simp)) text
  by_cases hpoint : rest.head? = some '.'
  · obtain ⟨fraction, rfl⟩ := List.head?_eq_some_iff.1 hpoint
    simp only [List.cons_append, numeralSizeAfter, fractionSize_append h]
  · have hpoint' := mt (head_append_eq_some (hne '.' (by simp)) rest).1 hpoint
    rw [numeralSizeAfter_of_head hpoint, numeralSizeAfter_of_head hpoint',
      exponentSize_append h, hzeros]
    simp only [hzero]

/-- The end of a numeral is told by what comes before a pause. -/
theorem numeralSize_append (h : Pauses tail) (text : List Char) :
    numeralSize? (text ++ tail) = numeralSize? text := by
  have hwhole : (text ++ tail).drop (digitCount text) = text.drop (digitCount text) ++ tail :=
    List.drop_append_of_le_length (digitCount_le_length text)
  unfold numeralSize?
  rw [startsInfinite_append h, digitCount_append h, hwhole, numeralSizeAfter_append h]
  refine if_congr Iff.rfl rfl (if_congr Iff.rfl rfl ?_)
  rcases text with _ | ⟨c, fraction⟩
  · rcases tail with _ | ⟨c, tail⟩
    · rfl
    · have hc : c ≠ '.' := by simpa using h.head_not (p := fun c => c = '.') (by simp) c rfl
      simp [hc]
  · rcases eq_or_ne c '.' with rfl | hc
    · simp only [List.cons_append, digitCount_append h, fractionSize_append h]
    · simp [hc]

/-! ## Words and punctuation -/

/-- The end of a word is told by what comes before a pause. -/
theorem wordSize_append (h : Pauses tail) (text : List Char) :
    wordSize? (text ++ tail) = wordSize? text := by
  rcases text with _ | ⟨c, rest⟩
  · rcases tail with _ | ⟨c, tail⟩
    · rfl
    · have hc : isWordStart c = false := h.head_not (by simp [isWordStart]) c rfl
      simp [wordSize?, hc]
  · have hrest :=
      takeWhile_append_of_head_not (h.head_not (p := isWordChar) (by simp [isWordChar])) rest
    simp only [List.cons_append, wordSize?, hrest]

/-- Punctuation is told by what comes before a pause. -/
theorem punctuation_append (h : Pauses tail) (c : Char) (rest : List Char) :
    punctuation? (c :: rest ++ tail) = punctuation? (c :: rest) := by
  have hprefix : ∀ entry ∈ TokenKind.punctuation,
      entry.1.isPrefixOf (c :: rest ++ tail) = entry.1.isPrefixOf (c :: rest) := by
    intro entry hentry
    by_cases hcomma : entry.1 = [',']
    · simp [hcomma, List.isPrefixOf]
    · refine isPrefixOf_append (fun d hd => ?_) (c :: rest)
      refine of_decide_eq_false (h.head_not (p := fun d => d ∈ entry.1) ?_ d hd)
      revert entry
      simp [TokenKind.punctuation]
  unfold punctuation?
  rw [List.find?_congr hprefix]

end

/-! ## Line breaks, strings and comments -/

theorem lineBreakSize_cons (c : Char) (rest : List Char) : lineBreakSize? (c :: rest) =
    if c = '\r' ∧ rest.head? = some '\n' then some 2 else if isLineBreak c then some 1
      else none := by
  unfold lineBreakSize?
  split
  · simp_all
  · rename_i hne heq
    obtain ⟨rfl, rfl⟩ := List.cons.inj heq
    refine (if_neg ?_).symm
    rintro ⟨rfl, hhead⟩
    obtain ⟨tail, rfl⟩ := List.head?_eq_some_iff.1 hhead
    exact hne tail rfl rfl
  · simp_all

theorem lineBreakSize_of_cons {c : Char} (hc : isLineBreak c = false) (rest : List Char) :
    lineBreakSize? (c :: rest) = none := by
  simp [lineBreakSize_cons, hc, (Text.isLineBreak_eq_false.1 hc).2]

theorem closingSize_cons {quote c : Char} (hc : c ≠ '\\') (rest : List Char) :
    closingSize? quote (c :: rest) = if isLineBreak c then none else if c = quote then some 1
      else (closingSize? quote rest).map (· + 1) := by
  rw [closingSize?]
  · rintro rfl
    exact absurd rfl hc
  · rintro d rest' rfl
    exact absurd rfl hc

theorem ne_backslash {c : Char} {rest : List Char} (hlast : c = '\\' → rest = [] → False)
    (hmore : ∀ d tail, c = '\\' → rest = d :: tail → False) : c ≠ '\\' := by
  intro hc
  cases rest with
  | nil => exact hlast hc rfl
  | cons d tail => exact hmore d tail hc rfl

section

variable {text tail tail' : List Char} {b b' : Char} {size : Nat}

theorem closingSize_pos {quote : Char} (h : closingSize? quote text = some size) : 0 < size := by
  fun_induction closingSize? quote text generalizing size <;> simp_all <;> omega

theorem closingSize_le_length {quote : Char} (h : closingSize? quote text = some size) :
    size ≤ text.length := by
  fun_induction closingSize? quote text generalizing size <;> simp_all <;> grind

theorem quoteSize_le_length (h : quoteSize? text = some size) : size ≤ text.length := by
  rcases text with _ | ⟨c, rest⟩
  · simp [quoteSize?] at h
  · rw [quoteSize?] at h
    split at h
    · obtain ⟨n, hn, rfl⟩ := Option.map_eq_some_iff.1 h
      exact Nat.succ_le_succ (closingSize_le_length hn)
    · simp at h

/-- A string that ends before the tail ends there whatever the tail is. -/
theorem closingSize_of_append {quote : Char} (h : closingSize? quote (text ++ tail) = some size)
    (hsize : size ≤ text.length) : closingSize? quote (text ++ tail') = some size := by
  fun_induction closingSize? quote text generalizing size with
  | case1 => exact absurd (closingSize_pos h) (Nat.not_lt_of_le hsize)
  | case2 =>
    rcases tail with _ | ⟨d, tail⟩
    · simp [closingSize?] at h
    · obtain ⟨n, -, rfl⟩ := Option.map_eq_some_iff.1 h
      exact absurd hsize (by simp)
  | case3 c rest ih =>
    obtain ⟨n, hn, rfl⟩ := Option.map_eq_some_iff.1 h
    exact Option.map_eq_some_iff.2 ⟨n, ih hn (by simpa using hsize), rfl⟩
  | case4 c rest hlast hmore hc =>
    simp [closingSize_cons (ne_backslash hlast hmore), hc] at h
  | case5 rest hlast hmore hc =>
    rw [List.cons_append, closingSize_cons (ne_backslash hlast hmore), if_neg hc, if_pos rfl] at h ⊢
    exact h
  | case6 c rest hlast hmore hc hquote ih =>
    rw [List.cons_append, closingSize_cons (ne_backslash hlast hmore), if_neg hc, if_neg hquote]
      at h ⊢
    obtain ⟨n, hn, rfl⟩ := Option.map_eq_some_iff.1 h
    rw [ih hn (by simpa using hsize), Option.map_some]

theorem quoteSize_of_append (h : quoteSize? (text ++ tail) = some size) (hsize : size ≤ text.length)
    (hpos : 0 < text.length) : quoteSize? (text ++ tail') = some size := by
  obtain ⟨c, rest, rfl⟩ := List.exists_cons_of_length_pos hpos
  rw [List.cons_append, quoteSize?] at h ⊢
  split at h
  · rename_i hc
    obtain ⟨n, hn, rfl⟩ := Option.map_eq_some_iff.1 h
    rw [if_pos hc, closingSize_of_append hn (by simpa using hsize), Option.map_some]
  · simp at h

theorem pauses_cons (hb : isBlank b = true) (tail : List Char) : Pauses (b :: tail) :=
  fun _ hc => .inl (Option.some.inj hc ▸ hb)

/-- A comment that ends before a blank ends with its line. -/
theorem commentSize_of_append (hb : isBlank b = true)
    (h : commentSize? (text ++ b :: tail) = some size)
    (hsize : size ≤ text.length) (hpos : 0 < text.length) :
    commentSize? (text ++ tail') = some size := by
  obtain ⟨c, rest, rfl⟩ := List.exists_cons_of_length_pos hpos
  obtain rfl : c = '#' := by
    by_contra hc
    simp [commentSize?, hc] at h
  rw [List.cons_append, commentSize?, List.takeWhile_append] at h ⊢
  split at h
  · have hlonger : 0 < (List.takeWhile (fun c => !isLineBreak c) (b :: tail)).length := by
      simp [Text.isLineBreak_of_isBlank hb]
    have := Option.some.inj h
    simp only [List.length_append, List.length_cons] at this hsize
    omega
  · rename_i hlength
    rwa [if_neg hlength]

theorem lineBreakSize_append (hb : isBlank b = true) (hpos : 0 < text.length) :
    lineBreakSize? (text ++ b :: tail) = lineBreakSize? text := by
  obtain ⟨c, rest, rfl⟩ := List.exists_cons_of_length_pos hpos
  have hfeed : '\n' ∉ (b :: tail).head? := by
    rintro ⟨rfl⟩
    simp [isBlank] at hb
  simp only [List.cons_append, lineBreakSize_cons, head_append_eq_some hfeed]

/-! ## Lexemes -/

/-- A hash begins nothing but a comment. -/
theorem scan_hash (rest : List Char) :
    scan? ('#' :: rest) = ofSize? .comment (commentSize? ('#' :: rest)) := by
  simp [scan?, lineBreakSize_of_cons, commentSize?, ofSize?, isLineBreak, Nat.add_comm 1]

/-- A quote begins nothing but a string. -/
theorem scan_quote {c : Char} (hc : c = '"' ∨ c = '\'') (rest : List Char) :
    scan? (c :: rest) = ofSize? .string (quoteSize? (c :: rest)) := by
  rcases hc with rfl | rfl <;>
    simp [scan?, lineBreakSize_of_cons, commentSize?, ofSize?, numeralSize?, digitCount,
      startsInfinite, wordSize?, isWordStart, punctuation?, TokenKind.punctuation, List.isPrefixOf,
      isLineBreak]

/-- What is neither a comment nor a string is told by what comes before a pause. -/
theorem scan_append (h : Pauses tail) {c : Char} (hc : c ≠ '#' ∧ c ≠ '"' ∧ c ≠ '\'')
    {rest : List Char} (hbreak : lineBreakSize? (c :: rest ++ tail) = lineBreakSize? (c :: rest)) :
    scan? (c :: rest ++ tail) = scan? (c :: rest) := by
  have hcomment : ∀ rest, commentSize? (c :: rest) = none := by simp [commentSize?, hc]
  have hquote : ∀ rest, quoteSize? (c :: rest) = none := by simp [quoteSize?, hc]
  rw [scan?, hbreak, numeralSize_append h, wordSize_append h, punctuation_append h,
    List.cons_append, hcomment, hquote, scan?, hcomment, hquote]

/-- A lexeme other than a comment goes on up to the pause behind it at most, so it is scanned
whatever comes there. -/
theorem scan_of_pauses {lexeme : Lexeme} (h : Pauses tail) {c : Char} {rest : List Char}
    (hc : isLineBreak c = false) (hscan : scan? (c :: rest) = some lexeme)
    (hkind : lexeme.kind ≠ .comment) : scan? (c :: rest ++ tail) = some lexeme := by
  by_cases hhash : c = '#'
  · subst hhash
    rw [scan_hash] at hscan
    exact absurd (kind_of_ofSize hscan).1 hkind
  by_cases hquote : c = '"' ∨ c = '\''
  · rw [List.cons_append, scan_quote hquote]
    rw [scan_quote hquote] at hscan
    obtain ⟨-, hstring⟩ := kind_of_ofSize hscan
    have hstring' : quoteSize? (c :: rest ++ []) = some lexeme.size := by
      rw [List.append_nil, hstring]
    have happ : quoteSize? (c :: rest ++ tail) = some lexeme.size :=
      quoteSize_of_append hstring' (quoteSize_le_length hstring) (by simp)
    rw [List.cons_append] at happ
    rw [happ, ← hstring, hscan]
  · have hplain : c ≠ '#' ∧ c ≠ '"' ∧ c ≠ '\'' := ⟨hhash, not_or.1 hquote⟩
    have hbreak : lineBreakSize? (c :: rest ++ tail) = lineBreakSize? (c :: rest) :=
      (lineBreakSize_of_cons hc _).trans (lineBreakSize_of_cons hc _).symm
    rw [scan_append h hplain hbreak, hscan]

/-- A lexeme that ends before a blank does not depend on what comes behind. -/
theorem scan_of_append {lexeme : Lexeme} (hb : isBlank b = true) (hb' : isBlank b' = true)
    (h : scan? (text ++ b :: tail) = some lexeme) (hsize : lexeme.size ≤ text.length) :
    scan? (text ++ b' :: tail') = some lexeme := by
  have hpos : 0 < text.length := lexeme.size_pos.trans_le hsize
  obtain ⟨c, rest, rfl⟩ := List.exists_cons_of_length_pos hpos
  by_cases hhash : c = '#'
  · subst hhash
    rw [List.cons_append, scan_hash, ← List.cons_append] at h ⊢
    obtain ⟨-, hcomment⟩ := kind_of_ofSize h
    rw [← h, hcomment, commentSize_of_append hb hcomment hsize hpos]
  by_cases hquote : c = '"' ∨ c = '\''
  · rw [List.cons_append, scan_quote hquote, ← List.cons_append] at h ⊢
    obtain ⟨-, hstring⟩ := kind_of_ofSize h
    rw [← h, hstring, quoteSize_of_append hstring hsize hpos]
  · have hplain : c ≠ '#' ∧ c ≠ '"' ∧ c ≠ '\'' := ⟨hhash, not_or.1 hquote⟩
    rw [scan_append (pauses_cons hb' tail') hplain (lineBreakSize_append hb' (by simp)), ← h,
      scan_append (pauses_cons hb tail) hplain (lineBreakSize_append hb (by simp))]

end

end OpticScript.Lexeme
