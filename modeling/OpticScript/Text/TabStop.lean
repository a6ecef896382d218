import OpticScript.Run

/-!
# Tab stops

A tab takes up a fixed number of columns, at least one, wherever it stands. Columns are
counted in words of 64 bits and begin at zero again beyond them, so the columns of a text
(`TabStop.span`) are the length of the text with its tabs expanded as a word holds it
(`span_eq`).

To show a line, the spaces for a tab are built first, whether or not there is a tab in the
line. So it takes both those and the line to fit (`TabStop.fits`).
-/

namespace OpticScript

/-- The number of columns that a tab takes up. -/
structure TabStop where
  width : UInt64 := 4
  width_pos : 0 < width := by decide
  deriving DecidableEq

namespace TabStop

instance : Inhabited TabStop := ⟨{}⟩

/-- A tab stop of the given width, or of one column if that is zero. -/
def ofSize (size : UInt64) : TabStop :=
  { width := max size 1
    width_pos := by
      change 0 < if size ≤ 1 then 1 else size
      split
      · decide
      · rename_i h
        exact UInt64.lt_trans (by decide) (UInt64.not_le.1 h) }

/-- The columns that a character takes up. -/
def columns (tab : TabStop) (c : Char) : UInt64 :=
  if c = '\t' then tab.width else 1

/-- The columns that a text takes up. -/
def span (tab : TabStop) (text : List Char) : UInt64 :=
  text.foldr (fun c columns => tab.columns c + columns) 0

@[simp] theorem span_nil (tab : TabStop) : tab.span [] = 0 := rfl

@[simp] theorem span_cons (tab : TabStop) (c : Char) (text : List Char) :
    tab.span (c :: text) = tab.columns c + tab.span text := rfl

/-- The text with every tab replaced by spaces. -/
def expand (tab : TabStop) (text : List Char) : List Char :=
  text.flatMap fun c => if c = '\t' then List.replicate tab.width.toNat ' ' else [c]

/-- Whether a line can be shown, given what it is with its tabs expanded. -/
def fits (tab : TabStop) (shown : String) : Bool :=
  tab.width.toNat ≤ maxBytes && shown.utf8ByteSize ≤ maxBytes

theorem span_eq (tab : TabStop) (text : List Char) :
    tab.span text = UInt64.ofNat (tab.expand text).length := by
  induction text with
  | nil => rfl
  | cons c text ih =>
    have hcolumns : tab.columns c =
        UInt64.ofNat (if c = '\t' then List.replicate tab.width.toNat ' ' else [c]).length := by
      unfold columns
      split <;> simp
    rw [expand, List.flatMap_cons, List.length_append, UInt64.ofNat_add, ← hcolumns, ← expand, ← ih]
    rfl

end TabStop

end OpticScript
