/-!
# Runs

A call returns a value, or it panics and there is none (`Run`). The only panic is that of a
string with more than `maxBytes` bytes, which cannot be built (`Run.ofString`).
-/

namespace OpticScript

/-- The most bytes that a string can have. -/
def maxBytes : Nat := UInt64.size / 2 - 1

/-- What a call comes to. -/
inductive Run (α : Type) where
  | returns (value : α)
  | panics
  deriving DecidableEq

namespace Run

variable {α ε : Type}

/-- A value for which everything has to fit. -/
def guarded (fits : Bool) (value : α) : Run α := if fits then returns value else panics

/-- A string, if it can be built. -/
def ofString (text : String) : Run String := guarded (text.utf8ByteSize ≤ maxBytes) text

/-- A result whose errors have to fit. -/
def ofExcept (fits : ε → Bool) : Except ε α → Run (Except ε α)
  | .ok value => returns (.ok value)
  | .error e => guarded (fits e) (.error e)

end Run

end OpticScript
