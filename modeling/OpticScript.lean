import OpticScript.Packrat.CharGrammar
import OpticScript.Proofs.Parser.Caching
import OpticScript.Proofs.Script.Derivation
import OpticScript.Proofs.Script.Location
import OpticScript.Proofs.Lexer.Columns
import OpticScript.Proofs.Script.Columns
import OpticScript.Proofs.Lexer.Reading
import OpticScript.Proofs.Lexer.Nesting
import OpticScript.Proofs.Lexer.Endings
import OpticScript.Proofs.Script.Endings
import OpticScript.Proofs.Grammar.Actions
import OpticScript.Proofs.Grammar.Legible
import OpticScript.Proofs.Script.RoundTrip
import OpticScript.Proofs.Parser.Termination
import OpticScript.Proofs.CharGrammar.History
import OpticScript.Proofs.Script.Trace
import OpticScript.Proofs.Script.Respaced
import OpticScript.Proofs.Lexer.Retry
import OpticScript.Proofs.Packrat.Memory
import OpticScript.Proofs.Parser.Retry
import OpticScript.Proofs.Parser.Printing
import OpticScript.Proofs.Script.Completeness
import OpticScript.Proofs.Parser.Progress
import OpticScript.Proofs.Script.Motions
import OpticScript.Proofs.Script.MissingValue
import OpticScript.Proofs.Script.Parameters
import OpticScript.Proofs.CharGrammar.Growth
import OpticScript.Proofs.Lexer.Quoted
import OpticScript.Proofs.Packrat.Memos
import OpticScript.Proofs.CharGrammar.Runs
import OpticScript.Proofs.Grammar.SettledLines
import OpticScript.Proofs.Lexer.LineByLine
import OpticScript.Proofs.Script.Annotated
import OpticScript.Proofs.Grammar.Faults
import OpticScript.Proofs.Lexeme.Forms
import OpticScript.Proofs.Script.Digits
import OpticScript.Proofs.Script.Undecodable
