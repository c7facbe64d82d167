import Lox.Program

/-!
Sessions: pieces of program run one after another on one machine. Identities of expressions
start anew in each piece, so the distances of a later piece stand in for those of an earlier
one, also within functions that are still around.
-/

set_option autoImplicit false

namespace Lox

namespace Session

/-- What is done with the statements of a piece. -/
inductive Mode
  | interpret
  | execute
  | evaluate
  | call (line : Nat) (arguments : List Value)

/-- A piece that `insists` runs even if it does not resolve. -/
structure Piece where
  tokens : List Token
  lexical : List Diagnostic
  mode : Mode
  insists : Bool

/-- What became of an expression whose value was to be called. -/
inductive CallReport
  | skipped
  | called (arity : Nat) (result : Except Failure Value)
  | notCallable (result : Except Failure Value)

inductive Report
  | rejected (diagnostics : List Diagnostic)
  | interpreted (result : Except Failure Unit)
  | executed (results : List (Except Failure Flow))
  | evaluated (results : List (Option (Except Failure Value)))
  | called (results : List CallReport)

/-- Statements up to the first that fails. -/
def executeEach (sub : Evaluator) : List Stmt → Action (List (Except Failure Flow))
  | [] => pure []
  | s :: ss => do
    match ← (sub.execute s Arena.globals).attempt with
    | .error cause => return [.error cause]
    | .ok flow => return .ok flow :: (← executeEach sub ss)

/-- Values of the expression statements up to the first that fails; none for others. -/
def evaluateEach (sub : Evaluator) : List Stmt → Action (List (Option (Except Failure Value)))
  | [] => pure []
  | .expression e :: ss => do
    match ← (sub.evaluate e Arena.globals).attempt with
    | .error cause => return [some (.error cause)]
    | .ok value => return some (.ok value) :: (← evaluateEach sub ss)
  | _ :: ss => do return none :: (← evaluateEach sub ss)

/-- Calls the value of an expression with whatever arguments are given. -/
def callOne (sub : Evaluator) (line : Nat) (arguments : List Value) (e : Expr) :
    Action CallReport := do
  match ← (sub.evaluate e Arena.globals).attempt with
  | .error cause => return .notCallable (.error cause)
  | .ok value =>
    match value.arity? with
    | none => return .notCallable (.ok value)
    | some arity =>
      let call := Evaluation.callValue sub value line arguments
      return .called arity (← call.attempt)

def callEach (sub : Evaluator) (line : Nat) (arguments : List Value) :
    List Stmt → Action (List CallReport)
  | [] => pure []
  | .expression e :: ss => do
    let report ← callOne sub line arguments e
    return report :: (← callEach sub line arguments ss)
  | _ :: ss => do return .skipped :: (← callEach sub line arguments ss)

def perform (sub : Evaluator) (mode : Mode) (statements : List Stmt) : Action Report :=
  match mode with
  | .interpret => do return .interpreted (← (Program.runStatements sub statements).attempt)
  | .execute => do return .executed (← executeEach sub statements)
  | .evaluate => do return .evaluated (← evaluateEach sub statements)
  | .call line arguments => do return .called (← callEach sub line arguments statements)

/-- Statements on a machine that gets to know their distances first. -/
def performInstalled (sub : Evaluator) (mode : Mode) (statements : List Stmt)
    (distances : Distances) : Action Report := fun m ↦
  perform sub mode statements (m.install distances)

/-- Runs a piece. If it is not run the machine stays as it was. -/
def step (fuel : Nat) (p : Piece) : Action Report :=
  let read := Reading.ofTokens p.tokens
  match p.lexical ++ read.diagnostics with
  | [] =>
    let resolution := Resolution.ofStatements read.statements
    if resolution.diagnostics.isEmpty || p.insists then
      performInstalled (evaluator fuel) p.mode read.statements resolution.distances
    else pure (.rejected resolution.diagnostics)
  | faults => pure (.rejected faults)

/-- Runs a piece with a sink of its own, and tells also what it printed. -/
def printing {α : Type} (x : Action α) : Action (α × ByteArray) := fun m ↦
  match x { m with sink := .unlimited } with
  | .outOfFuel => .outOfFuel
  | .failed cause m => .failed cause m
  | .done a m => .done (a, m.sink.written) m

/-- Reports of the pieces, each with what the piece printed. -/
def run (fuel : Nat) : List Piece → Action (List (Report × ByteArray))
  | [] => pure []
  | p :: ps => do
    let report ← printing (step fuel p)
    return report :: (← run fuel ps)

end Session

end Lox
