import OpticScript.Proofs.Lexer.Lines

/-!
# What is shown of a line

A line is shown with its tabs expanded, so the columns of a part of it are those of the line
that is shown (`TabStop.Shows`). Columns are words, and they are right as long as there is room for
them in a word (`TabStop.toNat_add_span`). There is if the line can be shown at all
(`TabStop.FitsLine`, `TabStop.length_expand_line`), and a text is fit to be shown if each of its
lines is (`TabStop.FitsText`).
-/

namespace OpticScript

theorem length_le_utf8ByteSize (text : List Char) :
    text.length ≤ (String.ofList text).utf8ByteSize := by
  induction text with
  | nil => exact Nat.zero_le _
  | cons c text ih =>
    have hpos := c.utf8Size_pos
    rw [String.ofList_cons, String.utf8ByteSize_append, String.utf8ByteSize_singleton,
      List.length_cons]
    omega

namespace TabStop

variable {tab : TabStop} {text : List Char}

theorem span_append (tab : TabStop) (text more : List Char) :
    tab.span (text ++ more) = tab.span text + tab.span more := by
  induction text with
  | nil => simp
  | cons c text ih => rw [List.cons_append, span_cons, ih, span_cons, UInt64.add_assoc]

theorem expand_append (tab : TabStop) (text more : List Char) :
    tab.expand (text ++ more) = tab.expand text ++ tab.expand more :=
  List.flatMap_append

/-- A text without tabs is shown as it is. -/
theorem expand_of_notMem (tab : TabStop) (h : '\t' ∉ text) : tab.expand text = text := by
  induction text with
  | nil => rfl
  | cons c text ih =>
    obtain ⟨hc, htext⟩ := not_or.1 (mt List.mem_cons.2 h)
    rw [expand, List.flatMap_cons, if_neg (Ne.symm hc), ← expand, ih htext]
    rfl

theorem span_of_notMem (tab : TabStop) (h : '\t' ∉ text) :
    tab.span text = UInt64.ofNat text.length := by
  rw [tab.span_eq, tab.expand_of_notMem h]

/-- No character vanishes. -/
theorem length_expand_pos (tab : TabStop) (hne : text ≠ []) : 0 < (tab.expand text).length := by
  obtain ⟨c, rest, rfl⟩ := List.exists_cons_of_ne_nil hne
  have hwidth : 0 < tab.width.toNat := UInt64.lt_iff_toNat_lt.1 tab.width_pos
  rw [expand, List.flatMap_cons, List.length_append]
  refine Nat.add_pos_left ?_ _
  split
  · rwa [List.length_replicate]
  · exact Nat.one_pos

/-- Columns are counted right while there is room for them in a word. -/
theorem toNat_add_span {column : UInt64}
    (h : column.toNat + (tab.expand text).length < UInt64.size) :
    (column + tab.span text).toNat = column.toNat + (tab.expand text).length := by
  rw [tab.span_eq, UInt64.toNat_add, UInt64.toNat_ofNat', Nat.add_mod_mod, Nat.mod_eq_of_lt h]

theorem toNat_span (h : (tab.expand text).length < UInt64.size) :
    (tab.span text).toNat = (tab.expand text).length := by
  rw [tab.span_eq, UInt64.toNat_ofNat', Nat.mod_eq_of_lt h]

theorem toNat_succ {column : UInt64} (h : column.toNat + 1 < UInt64.size) :
    (column + 1).toNat = column.toNat + 1 := by
  rw [UInt64.toNat_add, UInt64.toNat_one, Nat.mod_eq_of_lt h]

/-- The columns of the line from `start` on and before `stop` show this text with its tabs
expanded. Columns are counted from one. -/
def Shows (tab : TabStop) (line : String) (start stop : Nat) (text : String) : Prop :=
  ∃ before after, line.toList = before ++ tab.expand text.toList ++ after ∧
    start = before.length + 1 ∧ stop = (before ++ tab.expand text.toList).length + 1

/-- The line of the text with this number, counted from one, can be shown if there is one. -/
def FitsLine (tab : TabStop) (text : String) (number : Nat) : Prop :=
  ∀ line, (Text.lines text.toList)[number - 1]? = some line →
    tab.fits (String.ofList (tab.expand (Text.body line))) = true

/-- Each line of the text can be shown. -/
def FitsText (tab : TabStop) (text : String) : Prop :=
  ∀ line ∈ Text.lines text.toList, tab.fits (String.ofList (tab.expand (Text.body line))) = true

theorem FitsText.fitsLine {text : String} (h : tab.FitsText text) (number : Nat) :
    tab.FitsLine text number :=
  fun line hline => h line (List.mem_of_getElem? hline)

theorem length_le_maxBytes {shown : List Char} (h : tab.fits (String.ofList shown) = true) :
    shown.length ≤ maxBytes := by
  have hsize : (String.ofList shown).utf8ByteSize ≤ maxBytes := by
    simpa using (Bool.and_eq_true_iff.1 h).2
  exact (length_le_utf8ByteSize shown).trans hsize

/-- A line that can be shown leaves room in a word, for its end too. -/
theorem length_expand_line {line : List Char} (hline : Text.IsLine line)
    (h : tab.fits (String.ofList (tab.expand (Text.body line))) = true) :
    (tab.expand line).length + 1 < UInt64.size := by
  have hbody := length_le_maxBytes h
  have hends : (tab.expand (line.drop (Text.bodyLength line))).length ≤ 2 := by
    simp only [Text.IsLine, List.mem_cons, List.not_mem_nil, or_false] at hline
    rcases hline with hend | hend | hend | hend <;> rw [hend] <;> simp [expand]
  have hsplit : line = Text.body line ++ line.drop (Text.bodyLength line) := by
    rw [Text.body_eq_take, List.take_append_drop]
  have hlength := congrArg (fun text => (tab.expand text).length) hsplit
  simp only [tab.expand_append, List.length_append] at hlength
  simp only [maxBytes, UInt64.size] at hbody ⊢
  omega

end TabStop

end OpticScript
