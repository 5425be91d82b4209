import LoxScript.Scope.Forest
import LoxScript.History
import LoxScript.Main
import LoxScript.Proofs.Printing.RoundTrip
import LoxScript.Proofs.Printing.Quoting
import LoxScript.Proofs.Execution.Failure
import LoxScript.Proofs.Scope.Resolution
import LoxScript.Proofs.Session.Entries
import LoxScript.Proofs.Session.Variables
import LoxScript.Proofs.Session.Refinement
import LoxScript.Proofs.Grammar.Lookahead
import LoxScript.Proofs.Grammar.InRange
import LoxScript.Proofs.Grammar.Resumption
import LoxScript.Proofs.Grammar.MistakeOrder
import LoxScript.Proofs.Grammar.Phrase
import LoxScript.Proofs.Grammar.Segments
import LoxScript.Proofs.Grammar.OpenBlocks
import LoxScript.Proofs.Grammar.Tracing
import LoxScript.Proofs.Scope.Discipline
import LoxScript.Proofs.Execution.Truncation
import LoxScript.Proofs.Grammar.Succession
import LoxScript.Proofs.Scope.Cells
import LoxScript.Proofs.Token.Places
import LoxScript.Proofs.Execution.Arithmetic
import LoxScript.Proofs.Execution.Enclosure
