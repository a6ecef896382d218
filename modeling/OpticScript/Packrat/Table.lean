import Std.Data.TreeMap.Basic
import Std.Data.TreeMap.Lemmas

/-!
# Memo tables

A `Memo` is the outcome of a rule at a position : its result, if it matched, and the
position after it. A `Table` holds at most one memo for a rule and a position, in a row
for each position. The two laws of a table are `get?_insert_self` and
`get?_insert_of_ne`; nothing else about its layout matters.
-/

namespace OpticScript.Packrat

/-- The outcome of a rule. -/
structure Memo (α : Type) where
  /-- The result of a match. -/
  result : Option α
  /-- The position after the rule. -/
  stop : Nat
  deriving DecidableEq

/-- The memo of one rule at some position. -/
structure Entry (K : Type) (V : K → Type) where
  key : K
  memo : Memo (V key)

/-- The memos at one position, one for a rule at most. -/
abbrev Row (K : Type) (V : K → Type) := List (Entry K V)

variable {K : Type} [DecidableEq K] {V : K → Type}

namespace Row

def get? (key : K) : Row K V → Option (Memo (V key))
  | [] => none
  | entry :: row => if h : entry.key = key then some (h ▸ entry.memo) else get? key row

def insert (key : K) (memo : Memo (V key)) : Row K V → Row K V
  | [] => [⟨key, memo⟩]
  | entry :: row => if entry.key = key then ⟨key, memo⟩ :: row else entry :: insert key memo row

theorem get?_insert_self (key : K) (memo : Memo (V key)) (row : Row K V) :
    get? key (insert key memo row) = some memo := by
  induction row with
  | nil => simp [insert, get?]
  | cons entry row ih => by_cases h : entry.key = key <;> simp [insert, get?, h, ih]

theorem get?_insert_of_ne {key other : K} (hne : other ≠ key) (memo : Memo (V key))
    (row : Row K V) : get? other (insert key memo row) = get? other row := by
  induction row with
  | nil => simp [insert, get?, hne.symm]
  | cons entry row ih =>
    by_cases h : entry.key = key <;> simp [insert, get?, h, hne.symm, ih]

end Row

/-- The memos of a parse, by position. -/
structure Table (K : Type) (V : K → Type) where
  rows : Std.TreeMap Nat (Row K V)

namespace Table

def empty : Table K V := { rows := ∅ }

instance : Inhabited (Table K V) := ⟨empty⟩

/-- The memos at a position. -/
def row (table : Table K V) (start : Nat) : Row K V := table.rows.getD start []

/-- The memo of a rule at a position. -/
def get? (table : Table K V) (key : K) (start : Nat) : Option (Memo (V key)) :=
  (table.row start).get? key

/-- The table with this memo for the rule at the position. -/
def insert (table : Table K V) (key : K) (start : Nat) (memo : Memo (V key)) : Table K V :=
  { rows := table.rows.insert start ((table.row start).insert key memo) }

/-- The number of memos. -/
def size (table : Table K V) : Nat :=
  table.rows.toList.foldl (fun n entry => n + entry.2.length) 0

def isEmpty (table : Table K V) : Bool := table.size = 0

/-- The farthest position after any rule. -/
def farthest (table : Table K V) : Nat :=
  table.rows.toList.foldl (fun n entry => entry.2.foldl (fun n e => max n e.memo.stop) n) 0

omit [DecidableEq K] in
@[simp] theorem row_empty (start : Nat) : (empty : Table K V).row start = [] := by
  simp [row, empty]

@[simp] theorem get?_empty (key : K) (start : Nat) :
    (empty : Table K V).get? key start = none := by
  simp [get?, Row.get?]

theorem row_insert (table : Table K V) (key : K) (start pos : Nat) (memo : Memo (V key)) :
    (table.insert key start memo).row pos =
      if start = pos then (table.row start).insert key memo else table.row pos := by
  simp only [row, insert, Std.TreeMap.getD_insert, Nat.compare_eq_eq]

@[simp] theorem get?_insert_self (table : Table K V) (key : K) (start : Nat)
    (memo : Memo (V key)) : (table.insert key start memo).get? key start = some memo := by
  simp [get?, row_insert, Row.get?_insert_self]

theorem get?_insert_of_ne (table : Table K V) {key other : K} {start pos : Nat}
    (hne : other ≠ key ∨ pos ≠ start) (memo : Memo (V key)) :
    (table.insert key start memo).get? other pos = table.get? other pos := by
  simp only [get?, row_insert]
  split
  · rename_i h
    subst h
    exact Row.get?_insert_of_ne (by simpa using hne) memo _
  · rfl

end Table

end OpticScript.Packrat
