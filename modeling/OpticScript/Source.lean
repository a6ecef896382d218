import OpticScript.Text.Lines
import OpticScript.Text.TabStop

/-!
# Sources

A script is read piece by piece. A `Piece` is a line with its terminator or a run of
bytes that is not UTF-8. Bytes are cut at line feeds first, and each part is decoded on
its own, so a part that is no text hides nothing of the parts around it
(`Piece.ofBytes`).
-/

namespace OpticScript

/-- What one read of a script yields. -/
inductive Piece where
  /-- A line with its terminator; only the last line may lack one. -/
  | line (text : List Char)
  /-- Bytes that are not UTF-8. -/
  | undecodable
  deriving DecidableEq, Inhabited

/-- Bytes cut after every line feed. -/
def chunks : List UInt8 → List (List UInt8)
  | [] => []
  | b :: rest =>
    if b = 0x0a then [b] :: chunks rest
    else match chunks rest with
      | [] => [[b]]
      | chunk :: more => (b :: chunk) :: more

namespace Piece

def ofText (text : String) : List Piece :=
  (Text.lines text.toList).map line

/-- The lines of a chunk, if it is text at all. -/
def ofChunk (chunk : List UInt8) : List Piece :=
  match String.fromUTF8? (ByteArray.mk chunk.toArray) with
  | some text => ofText text
  | none => [undecodable]

def ofBytes (bytes : List UInt8) : List Piece :=
  (chunks bytes).flatMap ofChunk

end Piece

/-- A script by name, the pieces it is read in, and the width of its tabs. -/
structure Source where
  name : String
  pieces : List Piece
  tab : TabStop := default
  deriving DecidableEq, Inhabited

namespace Source

def ofText (name text : String) (tab : TabStop := default) : Source :=
  { name, pieces := Piece.ofText text, tab }

def ofBytes (name : String) (bytes : List UInt8) (tab : TabStop := default) : Source :=
  { name, pieces := Piece.ofBytes bytes, tab }

end Source

end OpticScript
