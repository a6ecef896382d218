/-!
# Lines

A line ends in a line feed, in a carriage return, or in both in that order; the last
line of a text may have no end. `lines` keeps the ends, so nothing is lost
(`flatten_lines`).
-/

namespace OpticScript.Text

/-- Whether a character ends a line. -/
def isLineBreak (c : Char) : Bool := c = '\n' || c = '\r'

/-- The lines of a text, each with its terminator; the last one may have none. -/
def lines : List Char → List (List Char)
  | [] => []
  | '\r' :: '\n' :: rest => ['\r', '\n'] :: lines rest
  | c :: rest =>
    if isLineBreak c then [c] :: lines rest
    else match lines rest with
      | [] => [[c]]
      | line :: more => (c :: line) :: more

/-- Nothing of the text is lost. -/
theorem flatten_lines (text : List Char) : (lines text).flatten = text := by
  fun_induction lines text with
  | case1 => rfl
  | case2 rest ih => simp [ih]
  | case3 c rest _ _ ih => simp [ih]
  | case4 c rest _ _ h ih => simp_all
  | case5 c rest _ _ line more h ih => simp_all

/-- No line is empty. -/
theorem ne_nil_of_mem_lines {text line : List Char} (h : line ∈ lines text) : line ≠ [] := by
  fun_induction lines text with
  | case1 => simp at h
  | case2 rest ih => grind
  | case3 c rest _ _ ih => grind
  | case4 c rest _ _ _ ih => grind
  | case5 c rest _ _ line more h ih => grind

end OpticScript.Text
