import Lox.Proofs.Run.Comparison

/-!
Calls of methods that are bound first. A callee in parentheses has its value before the arguments
have theirs, and a method has become a function by then that keeps its receiver. The direct form of
a tree is without such parentheses. Names in trees of one direct form are resolved alike.
-/

set_option autoImplicit false

namespace Lox

/-- A callee without parentheses, if there are any, around a property access. -/
def Expr.asCallee : Expr → Expr
  | .grouping (.get o name) => .get o name
  | .grouping (.super id line method) => .super id line method
  | e => e

mutual

/-- The expression in which every method is called directly. -/
def Expr.direct : Expr → Expr
  | .literal value => .literal value
  | .grouping e => .grouping e.direct
  | .unary op line e => .unary op line e.direct
  | .binary op line l r => .binary op line l.direct r.direct
  | .logical op line l r => .logical op line l.direct r.direct
  | .var id name => .var id name
  | .assign id name e => .assign id name e.direct
  | .call callee line args => .call callee.direct.asCallee line (Expr.directAll args)
  | .get o name => .get o.direct name
  | .set o name e => .set o.direct name e.direct
  | .this id line => .this id line
  | .super id line method => .super id line method

def Expr.directAll : List Expr → List Expr
  | [] => []
  | e :: es => e.direct :: Expr.directAll es

end

mutual

/-- The statement in which every method is called directly. -/
def Stmt.direct : Stmt → Stmt
  | .expression e => .expression e.direct
  | .print e => .print e.direct
  | .var name initial => .var name (initial.map Expr.direct)
  | .block body => .block (Stmt.directAll body)
  | .ifThen test s => .ifThen test.direct s.direct
  | .ifElse test s t => .ifElse test.direct s.direct t.direct
  | .loop test s => .loop test.direct s.direct
  | .function r => .function r.direct
  | .return_ line value => .return_ line (value.map Expr.direct)
  | .class_ name superclass methods => .class_ name superclass (Routine.directAll methods)

def Stmt.directAll : List Stmt → List Stmt
  | [] => []
  | s :: ss => s.direct :: Stmt.directAll ss

def Routine.direct : Routine → Routine
  | ⟨name, names, body⟩ => ⟨name, names, Stmt.directAll body⟩

def Routine.directAll : List Routine → List Routine
  | [] => []
  | r :: rs => r.direct :: Routine.directAll rs

end

/-! ### Resolution -/

namespace Resolution

theorem expr_asCallee (context : Context) (e : Expr) (s : State) :
    expr context e.asCallee s = expr context e s := by
  unfold Expr.asCallee
  split <;> rfl

mutual

theorem expr_direct (context : Context) :
    (e : Expr) → (s : State) → expr context e.direct s = expr context e s
  | .literal _, _ | .var _ _, _ | .this _ _, _ | .super _ _ _, _ => rfl
  | .grouping e, s | .unary _ _ e, s | .get e _, s => expr_direct context e s
  | .binary _ _ l r, s | .logical _ _ l r, s =>
    (expr_direct context r _).trans (congrArg (expr context r) (expr_direct context l s))
  | .assign id name e, s => congrArg (fun s ↦ s.record id name.text) (expr_direct context e s)
  | .call callee _ args, s =>
    (exprs_direct context args _).trans (congrArg (exprs context args)
      ((expr_asCallee context _ s).trans (expr_direct context callee s)))
  | .set o _ e, s =>
    (expr_direct context o _).trans (congrArg (expr context o) (expr_direct context e s))

theorem exprs_direct (context : Context) :
    (es : List Expr) → (s : State) → exprs context (Expr.directAll es) s = exprs context es s
  | [], _ => rfl
  | e :: es, s =>
    (exprs_direct context es _).trans (congrArg (exprs context es) (expr_direct context e s))

end

theorem optionalExpr_direct (context : Context) (e : Option Expr) (s : State) :
    optionalExpr context (e.map Expr.direct) s = optionalExpr context e s := by
  cases e with
  | none => rfl
  | some e => exact expr_direct context e s

theorem returnValue_direct (context : Context) (line : Nat) (e : Option Expr) (s : State) :
    returnValue context line (e.map Expr.direct) s = returnValue context line e s := by
  cases e with
  | none => rfl
  | some e => exact expr_direct context e _

mutual

theorem stmt_direct (context : Context) :
    (s : Stmt) → (st : State) → stmt context s.direct st = stmt context s st
  | .expression e, st | .print e, st => expr_direct context e st
  | .var name initial, st =>
    congrArg (fun st ↦ st.define name) (optionalExpr_direct context initial _)
  | .block body, st => congrArg State.leave (stmts_direct context body _)
  | .ifThen test s, st | .loop test s, st =>
    (stmt_direct context s _).trans (congrArg (stmt context s) (expr_direct context test st))
  | .ifElse test s t, st => by
    change stmt context t.direct (stmt context s.direct (expr context test.direct st)) = _
    rw [stmt_direct context t, stmt_direct context s, expr_direct context test]
    rfl
  | .function ⟨name, names, body⟩, st =>
    routine_direct context.owner .function ⟨name, names, body⟩ ((st.declare name).define name)
  | .return_ line value, _ => returnValue_direct context line value _
  | .class_ name superclass methods, st =>
    congrArg (fun st : State ↦ leaveSuperclass superclass st.leave)
      (routines_direct (classContext superclass) methods
        ((enterSuperclass name superclass
          ((st.declare name).define name)).enter.mark "this" .ready))

theorem stmts_direct (context : Context) :
    (ss : List Stmt) → (st : State) → stmts context (Stmt.directAll ss) st = stmts context ss st
  | [], _ => rfl
  | s :: ss, st =>
    (stmts_direct context ss _).trans (congrArg (stmts context ss) (stmt_direct context s st))

theorem routine_direct (owner : ClassContext) (kind : RoutineContext) :
    (r : Routine) → (st : State) → routine owner kind r.direct st = routine owner kind r st
  | ⟨_, _, body⟩, _ => congrArg State.leave (stmts_direct ⟨kind, owner⟩ body _)

theorem routines_direct (owner : ClassContext) :
    (rs : List Routine) → (st : State) →
      routines owner (Routine.directAll rs) st = routines owner rs st
  | [], _ => rfl
  | ⟨name, names, body⟩ :: rs, st =>
    (routines_direct owner rs _).trans (congrArg (routines owner rs)
      (routine_direct owner (methodContext name) ⟨name, names, body⟩ st))

end

theorem ofStatements_direct (ss : List Stmt) :
    ofStatements (Stmt.directAll ss) = ofStatements ss :=
  congrArg (fun s : State ↦ Resolution.mk s.distances s.diagnostics)
    (stmts_direct ⟨.none, .none⟩ ss .initial)

end Resolution

/-! ### Trees with their direct forms -/

theorem Expr.forall₂_directAll : (es : List Expr) →
    List.Forall₂ (fun e e' : Expr ↦ e = e'.direct) (Expr.directAll es) es
  | [] => .nil
  | _ :: es => .cons rfl (Expr.forall₂_directAll es)

theorem Stmt.forall₂_directAll : (ss : List Stmt) →
    List.Forall₂ (fun s s' : Stmt ↦ s = s'.direct) (Stmt.directAll ss) ss
  | [] => .nil
  | _ :: ss => .cons rfl (Stmt.forall₂_directAll ss)

theorem Routine.forall₂_directAll : (rs : List Routine) →
    List.Forall₂ (fun r r' : Routine ↦ r = r'.direct) (Routine.directAll rs) rs
  | [] => .nil
  | _ :: rs => .cons rfl (Routine.forall₂_directAll rs)

/-- The direct forms to the left, the trees themselves to the right. -/
def Matching.direct : Matching where
  exprs e e' := e = e'.direct
  stmts s s' := s = s'.direct
  routines r r' := r = r'.direct
  name {_ r'} h := by cases r'; exact congrArg (fun r ↦ r.name.text) h
  parameters {_ r'} h := by cases r'; exact congrArg (fun r ↦ r.parameters.map Name.text) h
  body {_ r'} h := by cases r'; exact h ▸ Stmt.forall₂_directAll _

end Lox
