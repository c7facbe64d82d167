import Lox.Arena
import Lox.Bindings
import Lox.CommandLine
import Lox.Diagnostic
import Lox.Evaluation
import Lox.Failure
import Lox.Grammar.Expression
import Lox.Grammar.Reply
import Lox.Grammar.Statement
import Lox.Machine
import Lox.Native
import Lox.Number.Basic
import Lox.Number.Rounding
import Lox.Number.Shortest
import Lox.Number.Text
import Lox.Program
import Lox.Quoted.Basic
import Lox.Quoted.CodeRange
import Lox.Quoted.ExtendingMarks
import Lox.Quoted.Unprintable
import Lox.Resolution.Basic
import Lox.Resolution.Scopes
import Lox.Session
import Lox.Sink
import Lox.Token.Basic
import Lox.Token.Scan
import Lox.Token.Scanner
import Lox.Token.Text
import Lox.Tree.Basic
import Lox.Tree.Equality
import Lox.Tree.Text
import Lox.Utf8
import Lox.Value
import Lox.Main
import Lox.Proofs.Arena.Accesses
import Lox.Proofs.Arena.Capture
import Lox.Proofs.Arena.Frames
import Lox.Proofs.Arena.Lifetime
import Lox.Proofs.Arena.Mapping
import Lox.Proofs.Arena.Operations
import Lox.Proofs.Bindings
import Lox.Proofs.Grammar.CompleteExpressions
import Lox.Proofs.Grammar.CompleteStatements
import Lox.Proofs.Grammar.Derivation
import Lox.Proofs.Grammar.Lookahead
import Lox.Proofs.Grammar.Reading
import Lox.Proofs.Grammar.SoundExpressions
import Lox.Proofs.Grammar.SoundStatements
import Lox.Proofs.Grammar.Stretches
import Lox.Proofs.Grammar.Trees
import Lox.Proofs.Reclamation.Access
import Lox.Proofs.Reclamation.Following
import Lox.Proofs.Reclamation.Moments
import Lox.Proofs.Reclamation.Renaming
import Lox.Proofs.Reclamation.Sessions
import Lox.Proofs.Reclamation.Settling
import Lox.Proofs.Reclamation.Similar
import Lox.Proofs.Reclamation.Simulation
import Lox.Proofs.Run.Alignment
import Lox.Proofs.Run.Comparison
import Lox.Proofs.Run.Congruence
import Lox.Proofs.Run.Cutoff
import Lox.Proofs.Run.Endings
import Lox.Proofs.Run.Habits
import Lox.Proofs.Run.InStep
import Lox.Proofs.Run.Pairing
import Lox.Proofs.Run.Throughout
import Lox.Proofs.Run.Watch
import Lox.Proofs.Scope.Accepted
import Lox.Proofs.Scope.EarlyAssignments
import Lox.Proofs.Scope.Fitting
import Lox.Proofs.Scope.Identities
import Lox.Proofs.Scope.Minding
import Lox.Proofs.Scope.Mirroring
import Lox.Proofs.Scope.Mirrors
import Lox.Proofs.Scope.Owners
import Lox.Proofs.Scope.Runs
import Lox.Proofs.Scope.Setting
import Lox.Proofs.Scope.Sites
import Lox.Proofs.Scope.Walk
import Lox.Proofs.Token.Bytes
import Lox.Proofs.Token.Passing
import Lox.Proofs.Token.Ranges
import Lox.Proofs.Token.Joining
import Lox.Proofs.Token.Lexemes
import Lox.Proofs.Token.Lines
import Lox.Proofs.Token.Respacing
import Lox.Proofs.Number.Rounding
import Lox.Proofs.Number.Texts
import Lox.Proofs.Printing.Shapes
import Lox.Proofs.Printing.Trees
import Lox.Proofs.Printing.Reading
import Lox.Proofs.Printing.Sources
import Lox.Proofs.Grammar.Shifting
import Lox.Proofs.Grammar.ShiftedExpressions
import Lox.Proofs.Grammar.ShiftedStatements
import Lox.Proofs.Appending.Reading
import Lox.Proofs.Appending.Resolution
import Lox.Proofs.Appending.Run
import Lox.Proofs.Calls.Abreast
import Lox.Proofs.Calls.Agreement
import Lox.Proofs.Calls.Binding
import Lox.Proofs.Calls.Counterparts
import Lox.Proofs.Calls.Direct
import Lox.Proofs.Calls.Entering
import Lox.Proofs.Classes.Declaring
import Lox.Proofs.Classes.Proceeding
import Lox.Proofs.Classes.Supers
import Lox.Proofs.Classes.Accounting
import Lox.Proofs.Classes.Running
import Lox.Proofs.Classes.Inheritance
import Lox.Proofs.Classes.Initializers
import Lox.Proofs.Faults.Violations
import Lox.Proofs.Faults.Reporting
import Lox.Proofs.Faults.Order
import Lox.Proofs.Grammar.Ebnf
import Lox.Proofs.Grammar.Relaxed
import Lox.Proofs.FirstFault.Verdicts
import Lox.Proofs.FirstFault.Expressions
import Lox.Proofs.FirstFault.Programs
import Lox.Proofs.Recovery.Isolation
import Lox.Proofs.Recovery.Boundaries
import Lox.Proofs.Recovery.Progress
import Lox.Proofs.Outlines.Trees
import Lox.Proofs.Outlines.Words
import Lox.Proofs.Outlines.Resolving
import Lox.Proofs.Outlines.Running
import Lox.Proofs.ForLoops.Contexts
import Lox.Proofs.ForLoops.Desugaring
import Lox.Proofs.ForLoops.Replacing
