import OpticScript.Text.Quoted
import OpticScript.Text.TabStop

/-!
# Diagnostics

What can be wrong with a script. A `Cause` says what, a `Diagnostic` also where : the
name of the script, a line, the columns of the text at fault, and that line of the
script if it is known. `Diagnostic.headline` is the one-line form and
`Diagnostic.render` adds the line with carets under the columns. The line may be too long
to be built (`Diagnostic.fits`), and so may what is rendered (`Diagnostic.rendered`).

A `ScriptError` is a diagnostic, a line whose bytes are no text, or a script file that
does not exist.
-/

namespace OpticScript

/-- What is wrong at some place of a script. -/
inductive Cause where
  /-- No token begins with this character. -/
  | illegalCharacter (character : Char)
  /-- An integer at or above the limit. -/
  | invalidNumber
  /-- A closing bracket that closes nothing, or a bracket of the other shape. -/
  | extraneous (bracket : String)
  /-- An opening bracket that the script never closes. -/
  | unclosed (bracket : String)
  /-- A surface line with no command line before it. -/
  | surfaceWithoutCommand
  /-- A key and an equals sign with no value after them. -/
  | missingValue
  /-- Two integers run together, such as `01`. -/
  | leadingZeros
  /-- Two numbers run together, such as `0.1.1`. -/
  | invalidNumberForm
  /-- The line fits no rule of the grammar. -/
  | unrecognized
  /-- A cause in the words of the caller. -/
  | other (message : String)
  deriving DecidableEq, Inhabited

/-- The wording of a cause. -/
def Cause.message : Cause → String
  | illegalCharacter c => "illegal character '" ++ Text.shown c ++ "'"
  | invalidNumber => "invalid number literal"
  | extraneous bracket => "extraneous '" ++ bracket ++ "'"
  | unclosed bracket => "unclosed '" ++ bracket ++ "'"
  | surfaceWithoutCommand => "secondary surface missing primary surface"
  | missingValue => "missing value"
  | leadingZeros => "leading zeros in integers are not permitted"
  | invalidNumberForm => "invalid number syntax"
  | unrecognized => "syntax error"
  | other message => message

/-- A cause at its place in a script. -/
structure Diagnostic where
  cause : Cause
  source : String
  line : Nat
  startColumn : UInt64
  /-- One past the last column at fault. -/
  endColumn : UInt64
  /-- The text at fault. -/
  text : String
  /-- The line at fault with its tabs expanded, if it is known. -/
  context : Option String
  deriving DecidableEq, Inhabited

namespace Diagnostic

def message (d : Diagnostic) : String := d.cause.message

/-- Source, line, column and message. -/
def headline (d : Diagnostic) : String :=
  d.source ++ ":" ++ d.line.repr ++ ":" ++ d.startColumn.toNat.repr ++ ": " ++ d.message

/-- `n` copies of a character. -/
def run (c : Char) (n : Nat) : String := String.ofList (List.replicate n c)

/-- The headline, and below it the line at fault with at least one caret. -/
def render (d : Diagnostic) : String :=
  match d.context with
  | none => d.headline
  | some context =>
    d.headline ++ "\n    " ++ context ++ "\n    " ++ run ' ' (d.startColumn.toNat - 1)
      ++ run '^' (max (d.endColumn.toNat - d.startColumn.toNat) 1)

/-- Renders a diagnostic. -/
def rendered (d : Diagnostic) : Run String := .ofString d.render

/-- Whether the line of a diagnostic can be shown with tabs of this width. -/
def fits (tab : TabStop) (d : Diagnostic) : Bool := d.context.all tab.fits

end Diagnostic

/-- Why a script cannot be read. -/
inductive ScriptError where
  | located (diagnostic : Diagnostic)
  /-- The bytes of a line are not UTF-8. -/
  | unreadable (source : String) (line : Nat)
  | missingFile (path : String)
  deriving DecidableEq, Inhabited

namespace ScriptError

/-- The error in one line. -/
def message : ScriptError → String
  | located diagnostic => diagnostic.headline
  | unreadable source line =>
    "Failed to read line " ++ line.repr ++ " of '" ++ source
      ++ "': stream did not contain valid UTF-8"
  | missingFile path =>
    "Failed to read script file '" ++ path ++ "': No such file or directory (os error 2)"

/-- Whether the error can be made with tabs of this width. -/
def fits (tab : TabStop) : ScriptError → Bool
  | located diagnostic => diagnostic.fits tab
  | _ => true

end ScriptError

end OpticScript
