import Lox.Resolution.Scopes

/-!
Resolution of a program: how far out each name is bound, and the misplaced constructs. The
tree is walked once, in the order in which it runs, and scopes open and close as frames will
when it does.
-/

set_option autoImplicit false

namespace Lox

namespace Resolution

/-- The kind of routine that the code at hand belongs to. -/
inductive RoutineContext
  | none
  | function
  | method
  | initializer
deriving DecidableEq

inductive ClassContext
  | none
  | class_
  | subclass
deriving DecidableEq

structure Context where
  routine : RoutineContext
  owner : ClassContext

def methodContext (name : Name) : RoutineContext :=
  if name.text = initializerName then .initializer else .method

def readVariable (id : NodeId) (name : Name) (s : State) : State :=
  (s.reportIf (s.awaits name.text) name.line .ownInitializer).record id name.text

def thisAccess (context : Context) (id : NodeId) (line : Nat) (s : State) : State :=
  match context.owner with
  | .none => s.report line .thisOutsideClass
  | _ => s.record id "this"

def superAccess (context : Context) (id : NodeId) (line : Nat) (s : State) : State :=
  match context.owner with
  | .none => s.report line .superOutsideClass
  | .class_ => s.report line .superWithoutSuperclass
  | .subclass => s.record id "super"

mutual

def expr (context : Context) : Expr → State → State
  | .literal _, s => s
  | .grouping inner, s => expr context inner s
  | .unary _ _ operand, s => expr context operand s
  | .binary _ _ left right, s => expr context right (expr context left s)
  | .logical _ _ left right, s => expr context right (expr context left s)
  | .var id name, s => readVariable id name s
  | .assign id name value, s => (expr context value s).record id name.text
  | .call callee _ arguments, s => exprs context arguments (expr context callee s)
  | .get object _, s => expr context object s
  | .set object _ value, s => expr context object (expr context value s)
  | .this id line, s => thisAccess context id line s
  | .super id line _, s => superAccess context id line s

def exprs (context : Context) : List Expr → State → State
  | [], s => s
  | e :: es, s => exprs context es (expr context e s)

end

def optionalExpr (context : Context) : Option Expr → State → State
  | none, s => s
  | some e, s => expr context e s

def parameters (names : List Name) (s : State) : State :=
  names.foldl (fun s name ↦ (s.declare name).define name) s

def returnValue (context : Context) (line : Nat) : Option Expr → State → State
  | none, s => s
  | some value, s =>
    expr context value
      (s.reportIf (decide (context.routine = .initializer)) line .valueFromInitializer)

/-- The extended class is looked up outside of the scope that then holds it. -/
def enterSuperclass (name : Name) : Option Superclass → State → State
  | none, s => s
  | some superclass, s =>
    let checked :=
      s.reportIf (decide (superclass.name.text = name.text)) superclass.name.line .selfInheritance
    (readVariable superclass.id superclass.name checked).enter.mark "super" .ready

def leaveSuperclass : Option Superclass → State → State
  | none, s => s
  | some _, s => s.leave

def classContext : Option Superclass → ClassContext
  | none => .class_
  | some _ => .subclass

mutual

def stmt (context : Context) : Stmt → State → State
  | .expression value, s => expr context value s
  | .print value, s => expr context value s
  | .var name initial, s => (optionalExpr context initial (s.declare name)).define name
  | .block body, s => (stmts context body s.enter).leave
  | .ifThen test consequent, s => stmt context consequent (expr context test s)
  | .ifElse test consequent alternative, s =>
    stmt context alternative (stmt context consequent (expr context test s))
  | .loop test body, s => stmt context body (expr context test s)
  | .function r, s =>
    routine context.owner .function r ((s.declare r.name).define r.name)
  | .return_ line value, s =>
    returnValue context line value
      (s.reportIf (decide (context.routine = .none)) line .returnOutsideFunction)
  | .class_ name superclass methods, s =>
    let opened := enterSuperclass name superclass ((s.declare name).define name)
    let walked := routines (classContext superclass) methods (opened.enter.mark "this" .ready)
    leaveSuperclass superclass walked.leave

def stmts (context : Context) : List Stmt → State → State
  | [], s => s
  | t :: ts, s => stmts context ts (stmt context t s)

/-- Parameters and body of a routine share one scope. -/
def routine (owner : ClassContext) (kind : RoutineContext) : Routine → State → State
  | ⟨_, names, body⟩, s => (stmts ⟨kind, owner⟩ body (parameters names s.enter)).leave

/-- The methods of a class. -/
def routines (owner : ClassContext) : List Routine → State → State
  | [], s => s
  | r :: rs, s => routines owner rs (routine owner (methodContext r.name) r s)

end

end Resolution

/-- What resolution finds: distances, and errors in the order of the walk. -/
structure Resolution where
  distances : Distances
  diagnostics : List Diagnostic

def Resolution.ofStatements (statements : List Stmt) : Resolution :=
  let s := Resolution.stmts ⟨.none, .none⟩ statements .initial
  ⟨s.distances, s.diagnostics⟩

end Lox
