import Lox.Evaluation
import Lox.Grammar.Statement
import Lox.Resolution.Basic
import Lox.Token.Scan

/-!
Programs from their text to their end. A program runs only if nothing is wrong with it:
lexical and grammatical errors are reported together, by line, and errors of resolution only
when there are none of those.
-/

set_option autoImplicit false

namespace Lox

/-- A program that may run. -/
structure Program where
  statements : List Stmt
  distances : Distances

namespace Program

/-- Errors by line. Errors on one line keep their order. -/
def byLine (diagnostics : List Diagnostic) : List Diagnostic :=
  diagnostics.mergeSort fun a b ↦ decide (a.line ≤ b.line)

def ofSource (source : String) : Except (List Diagnostic) Program :=
  let read := Reading.ofTokens (Scan.tokens source)
  match Scan.diagnostics source ++ read.diagnostics with
  | [] =>
    let resolution := Resolution.ofStatements read.statements
    match resolution.diagnostics with
    | [] => .ok ⟨read.statements, resolution.distances⟩
    | faults => .error faults
  | faults => .error (byLine faults)

/-- Statements in the global frame, none of which may return. -/
def runStatements (sub : Evaluator) : List Stmt → Action Unit
  | [] => pure ()
  | s :: ss => do
    match ← sub.execute s Arena.globals with
    | .normal => runStatements sub ss
    | .returned value => .fail (.internal (.escapedReturn value.text))

/-- Runs a program on a machine, which gets to know its distances first. -/
def run (fuel : Nat) (p : Program) : Action Unit := fun m ↦
  runStatements (evaluator fuel) p.statements (m.install p.distances)

end Program

/-- How the run of a source text ends. -/
inductive Run
  | rejected (diagnostics : List Diagnostic)
  | outOfFuel
  | failed (cause : Failure) (printed : ByteArray)
  | finished (printed : ByteArray)

def Run.ofSource (fuel : Nat) (sink : Sink) (clock : Clock) (source : String) : Run :=
  match Program.ofSource source with
  | .error diagnostics => .rejected diagnostics
  | .ok p =>
    match p.run fuel (.initial sink clock) with
    | .outOfFuel => .outOfFuel
    | .failed cause m => .failed cause m.sink.written
    | .done _ m => .finished m.sink.written

end Lox
