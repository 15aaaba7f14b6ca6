import Scripting.Main
import Scripting.Command.Rehearsal
import Scripting.Host.Probe
import Scripting.Proofs.Grammar
import Scripting.Proofs.Grammar.Completeness
import Scripting.Proofs.Grammar.Soundness
import Scripting.Proofs.Grammar.Lines
import Scripting.Proofs.Parse.Extension
import Scripting.Proofs.Parse.Joining
import Scripting.Proofs.Parse.Lines
import Scripting.Proofs.Parse.OneLine
import Scripting.Proofs.Parse.Layout
import Scripting.Proofs.Parse.Quotation
import Scripting.Proofs.Program.Lines
import Scripting.Proofs.Program.TokenLines
import Scripting.Proofs.Program.Pairing
import Scripting.Proofs.Program.Nesting
import Scripting.Proofs.Program.Isolation
import Scripting.Proofs.Token.Spans
import Scripting.Proofs.Token.Lines
import Scripting.Proofs.Token.Balance
import Scripting.Proofs.Front.Lexer
import Scripting.Proofs.Front.Nodes
import Scripting.Proofs.Front.Cursor
import Scripting.Proofs.Front.Expressions
import Scripting.Proofs.Front.Statements
import Scripting.Proofs.Front.Endings
import Scripting.Proofs.Store.Lines
import Scripting.Proofs.Store.Bindings
import Scripting.Proofs.Store.Tidy
import Scripting.Proofs.Store.Matching
import Scripting.Proofs.Store.Reach
import Scripting.Proofs.Store.Unfolding
import Scripting.Proofs.Store.Scoping
import Scripting.Proofs.Store.Records
import Scripting.Proofs.Eval.Fuel
import Scripting.Proofs.Eval.Lines
import Scripting.Proofs.Eval.Course
import Scripting.Proofs.Eval.Uses
import Scripting.Proofs.Eval.Comparison
import Scripting.Proofs.Eval.Calls
import Scripting.Proofs.Eval.Discipline
import Scripting.Proofs.Eval.Likeness
import Scripting.Proofs.Eval.Frame
import Scripting.Proofs.Eval.Locality
import Scripting.Proofs.Text.Quoting
import Scripting.Proofs.Number.Display
import Scripting.Proofs.Session.Splitting
import Scripting.Proofs.Session.Printing
import Scripting.Proofs.Session.Moments
import Scripting.Proofs.Session.Permanence
import Scripting.Proofs.Session.Positions
import Scripting.Proofs.Session.Tidiness
import Scripting.Proofs.Session.Soundness
import Scripting.Proofs.Machine.Memory
import Scripting.Proofs.Machine.Evaluation
import Scripting.Proofs.Machine.Image
import Scripting.Proofs.Machine.Simulation
import Scripting.Proofs.Machine.Runs
import Scripting.Proofs.Session.WellFormed
import Scripting.Proofs.Session.Nesting
import Scripting.Proofs.Format.Lexing
import Scripting.Proofs.Format.Spelling
import Scripting.Proofs.Format.Statements
import Scripting.Proofs.Format.RoundTrip
import Scripting.Proofs.Format.Words
import Scripting.Proofs.Session.Logging
import Scripting.Proofs.Outline.Tree
import Scripting.Proofs.Outline.Shape
import Scripting.Proofs.Outline.Unambiguous
import Scripting.Proofs.Outline.Lines
import Scripting.Proofs.Repl.Entries
import Scripting.Proofs.Repl.Recall
import Scripting.Proofs.Front.Openings
