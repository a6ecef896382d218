import OpticScript.Proofs.Lexer.Lines

/-!
# What the lines of a text are

A text is cut behind every line feed, behind every carriage return that no line feed
follows, and nowhere else (`IsLines`). There is one way to do so, and `lines` is it
(`isLines_iff`). Hence so many lines of a text are the lines of a text (`lines_take`), and
so are those after them (`lines_drop`).
-/

namespace OpticScript.Text

/-- The text is cut into these lines : each of them ends at its first line break, but for
the last one, which has none if the text goes on behind the last line break. -/
inductive IsLines : List Char → List (List Char) → Prop
  | nil : IsLines [] []
  | last {body : List Char} (hne : body ≠ []) (hbody : ∀ c ∈ body, isLineBreak c = false) :
      IsLines body [body]
  | cons {body ending rest : List Char} {pieces : List (List Char)}
      (hbody : ∀ c ∈ body, isLineBreak c = false)
      (hending : ending = ['\n'] ∨ ending = ['\r', '\n'] ∨
        ending = ['\r'] ∧ rest.head? ≠ some '\n')
      (h : IsLines rest pieces) : IsLines (body ++ ending ++ rest) ((body ++ ending) :: pieces)

/-- A text may be cut here : at its beginning, at its end, or behind a line break that is
not the first half of one. -/
def IsBoundary (before after : List Char) : Prop :=
  before = [] ∨ after = [] ∨
    EndsLine before ∧ ¬(before.getLast? = some '\r' ∧ after.head? = some '\n')

section

variable {text body ending rest : List Char} {pieces before after : List (List Char)}

theorem IsLines.flatten_eq (h : IsLines text pieces) : pieces.flatten = text := by
  induction h with
  | nil => rfl
  | last => simp
  | cons _ _ _ ih => simp [ih]

/-- A blank line before the others. -/
theorem IsLines.blank (hending : ending = ['\n'] ∨ ending = ['\r', '\n'] ∨
    ending = ['\r'] ∧ rest.head? ≠ some '\n') (h : IsLines rest pieces) :
    IsLines (ending ++ rest) (ending :: pieces) := by
  have hbody : ∀ c ∈ ([] : List Char), isLineBreak c = false := by simp
  simpa using h.cons hbody hending

theorem isLines_lines (text : List Char) : IsLines text (lines text) := by
  fun_induction lines text with
  | case1 => exact .nil
  | case2 rest ih => exact ih.blank (.inr (.inl rfl))
  | case3 c rest hne hc ih =>
    rcases isLineBreak_iff.1 hc with rfl | rfl
    · exact ih.blank (.inl rfl)
    · refine ih.blank (.inr (.inr ⟨rfl, fun hhead => ?_⟩))
      obtain ⟨rest', rfl⟩ := List.head?_eq_some_iff.1 hhead
      exact hne rest' rfl rfl
  | case4 c rest _ hc hnil ih =>
    obtain rfl := lines_eq_nil hnil
    exact .last (by simp) (by simpa using hc)
  | case5 c rest _ hc line more hlines ih =>
    rw [hlines] at ih
    cases ih with
    | last hne hbody => exact .last (by simp) (by simpa [hc] using hbody)
    | @cons body ending rest' _ hbody hending htail =>
      have hcons : ∀ d ∈ c :: body, isLineBreak d = false := by simpa [hc] using hbody
      exact htail.cons hcons hending

/-- A character that is no line break belongs to the line after it. -/
theorem lines_cons {c : Char} (hc : isLineBreak c = false) {line : List Char}
    {more : List (List Char)} (h : lines rest = line :: more) :
    lines (c :: rest) = (c :: line) :: more := by
  rw [lines, if_neg (by simp [hc]), h]
  rintro rest' rfl
  simp [isLineBreak] at hc

theorem lines_ending (hending : ending = ['\n'] ∨ ending = ['\r', '\n'] ∨
    ending = ['\r'] ∧ rest.head? ≠ some '\n') : lines (ending ++ rest) = ending :: lines rest := by
  rcases hending with rfl | rfl | ⟨rfl, hhead⟩
  · simp [lines, isLineBreak]
  · simp [lines]
  · rw [List.singleton_append, lines]
    · rfl
    · rintro rest' - rfl
      simp at hhead

theorem lines_body (hne : body ≠ []) (hbody : ∀ c ∈ body, isLineBreak c = false) :
    lines body = [body] := by
  induction body with
  | nil => exact absurd rfl hne
  | cons c body ih =>
    obtain ⟨hc, hbody⟩ := List.forall_mem_cons.1 hbody
    rcases eq_or_ne body [] with rfl | hne
    · simp [lines, hc]
    · exact lines_cons hc (ih hne hbody)

theorem IsLines.lines_eq (h : IsLines text pieces) : lines text = pieces := by
  induction h with
  | nil => rfl
  | last hne hbody => exact lines_body hne hbody
  | @cons body ending rest pieces hbody hending _ ih =>
    induction body with
    | nil => rw [List.nil_append, lines_ending hending, ih]
    | cons c body ihbody =>
      obtain ⟨hc, hbody⟩ := List.forall_mem_cons.1 hbody
      exact lines_cons hc (ihbody hbody)

/-- There is one way to cut a text into lines. -/
theorem isLines_iff : IsLines text pieces ↔ lines text = pieces :=
  ⟨IsLines.lines_eq, fun h => h ▸ isLines_lines text⟩

/-! ## Some lines of a text -/

theorem IsLines.append_left (h : IsLines text pieces) (happ : pieces = before ++ after) :
    IsLines before.flatten before := by
  induction h generalizing before with
  | nil =>
    obtain ⟨rfl, -⟩ := List.append_eq_nil_iff.1 happ.symm
    exact .nil
  | @last body hne hbody =>
    rcases List.append_eq_singleton_iff.1 happ.symm with ⟨rfl, -⟩ | ⟨rfl, -⟩
    · exact .nil
    · simpa using IsLines.last hne hbody
  | @cons body ending rest pieces hbody hending h ih =>
    rcases List.cons_eq_append_iff.1 happ with ⟨rfl, -⟩ | ⟨before, rfl, rfl⟩
    · exact .nil
    · refine .cons hbody (hending.imp_right (.imp_right (.imp_right fun hhead hhead' => ?_)))
        (ih rfl)
      rw [← h.flatten_eq, List.flatten_append, List.head?_append, hhead'] at hhead
      exact hhead rfl

theorem IsLines.append_right (h : IsLines text pieces) (happ : pieces = before ++ after) :
    IsLines after.flatten after := by
  induction h generalizing before with
  | nil =>
    obtain ⟨-, rfl⟩ := List.append_eq_nil_iff.1 happ.symm
    exact .nil
  | @last body hne hbody =>
    rcases List.append_eq_singleton_iff.1 happ.symm with ⟨-, rfl⟩ | ⟨-, rfl⟩
    · simpa using IsLines.last hne hbody
    · exact .nil
  | @cons body ending rest pieces hbody hending h ih =>
    rcases List.cons_eq_append_iff.1 happ with ⟨-, rfl⟩ | ⟨before, -, rfl⟩
    · rw [List.flatten_cons, h.flatten_eq]
      exact .cons hbody hending h
    · exact ih rfl

/-- Between two lines the text may be cut. -/
theorem IsLines.isBoundary (h : IsLines text pieces) (happ : pieces = before ++ after) :
    IsBoundary before.flatten after.flatten := by
  induction h generalizing before with
  | nil =>
    obtain ⟨rfl, -⟩ := List.append_eq_nil_iff.1 happ.symm
    exact .inl rfl
  | last =>
    rcases List.append_eq_singleton_iff.1 happ.symm with ⟨rfl, -⟩ | ⟨-, rfl⟩
    · exact .inl rfl
    · exact .inr (.inl rfl)
  | @cons body ending rest pieces hbody hending h ih =>
    rcases List.cons_eq_append_iff.1 happ with ⟨rfl, -⟩ | ⟨before, rfl, rfl⟩
    · exact .inl rfl
    · rcases eq_or_ne before.flatten [] with hnil | hne
      · -- the boundary is right behind this line
        have hrest : after.flatten = rest := by
          rw [← h.flatten_eq, List.flatten_append, hnil, List.nil_append]
        rw [List.flatten_cons, hnil, List.append_nil, hrest]
        refine .inr (.inr ?_)
        rcases hending with rfl | rfl | ⟨rfl, hhead⟩
        · simp [EndsLine, isLineBreak]
        · simp [EndsLine, isLineBreak]
        · simpa [EndsLine, isLineBreak] using hhead
      · rcases ih rfl with hnil | hnil | hends
        · exact absurd hnil hne
        · exact .inr (.inl hnil)
        · obtain ⟨c, hc⟩ := Option.ne_none_iff_exists'.1 (mt List.getLast?_eq_none_iff.1 hne)
          exact .inr (.inr (by simpa [EndsLine, List.getLast?_append, hc] using hends))

theorem lines_take (text : List Char) (n : Nat) :
    lines ((lines text).take n).flatten = (lines text).take n :=
  ((isLines_lines text).append_left (List.take_append_drop n _).symm).lines_eq

theorem lines_drop (text : List Char) (n : Nat) :
    lines ((lines text).drop n).flatten = (lines text).drop n :=
  ((isLines_lines text).append_right (List.take_append_drop n _).symm).lines_eq

/-- The first lines of a text, as many as that. -/
def firstLines (text : String) (n : Nat) : String :=
  String.ofList ((lines text.toList).take n).flatten

theorem lines_firstLines (text : String) (n : Nat) :
    lines (firstLines text n).toList = (lines text.toList).take n := by
  rw [firstLines, String.toList_ofList, lines_take]

theorem firstLines_of_length_le {text : String} {n : Nat} (h : (lines text.toList).length ≤ n) :
    firstLines text n = text := by
  rw [firstLines, List.take_of_length_le h, flatten_lines, String.ofList_toList]

/-- A text is its first lines and then the others. -/
theorem exists_append_firstLines (text : String) (n : Nat) :
    ∃ rest, text = firstLines text n ++ rest ∧ lines rest.toList = (lines text.toList).drop n := by
  refine ⟨String.ofList ((lines text.toList).drop n).flatten, ?_, ?_⟩
  · rw [firstLines, ← String.ofList_append, ← List.flatten_append, List.take_append_drop,
      flatten_lines, String.ofList_toList]
  · rw [String.toList_ofList, lines_drop]

/-- A line without its end is what stands before the first line break. -/
theorem IsLine.trim {line : List Char} (h : IsLine line) :
    (line.reverse.dropWhile isLineBreak).reverse = line.takeWhile fun c => !isLineBreak c := by
  set body := line.takeWhile fun c => !isLineBreak c with hbody
  have happ : line = body ++ line.drop (bodyLength line) :=
    (List.prefix_iff_eq_append.1 (List.takeWhile_prefix _)).symm
  have hending : ∀ c ∈ (line.drop (bodyLength line)).reverse, isLineBreak c = true := by
    rcases (by simpa [IsLine] using h : line.drop (bodyLength line) = [] ∨
      line.drop (bodyLength line) = ['\n'] ∨ line.drop (bodyLength line) = ['\r'] ∨
        line.drop (bodyLength line) = ['\r', '\n']) with h | h | h | h <;> simp [h, isLineBreak]
  have hkept : body.reverse.dropWhile isLineBreak = body.reverse := by
    rcases hrev : body.reverse with _ | ⟨c, rest⟩
    · rfl
    · have hc : c ∈ body := List.mem_reverse.1 (hrev ▸ List.mem_cons_self)
      have hbreak : isLineBreak c = false := by simpa using List.mem_takeWhile_imp hc
      rw [List.dropWhile_cons_of_neg (by simp [hbreak])]
  calc (line.reverse.dropWhile isLineBreak).reverse
      = ((line.drop (bodyLength line)).reverse ++
          body.reverse |>.dropWhile isLineBreak).reverse := by
        rw [← List.reverse_append, ← happ]
    _ = (body.reverse.dropWhile isLineBreak).reverse := by
        rw [List.dropWhile_append_of_pos hending]
    _ = body := by rw [hkept, List.reverse_reverse]

end

end OpticScript.Text
