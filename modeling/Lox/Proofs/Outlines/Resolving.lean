import Lox.Proofs.Bindings
import Lox.Proofs.Outlines.Trees
import Lox.Resolution.Basic

/-!
Resolution of outlines. Identities matter to resolution only as keys of distances, and lines only
where it reports something: resolved, an outline has the distances of the program, under the changed
identities, and as many diagnostics (`Resolution.ofStatements_outline`). Hence programs of one
outline have the same distances at corresponding places.
-/

set_option autoImplicit false

namespace Lox

/-- The diagnostic on no line. -/
def Diagnostic.unlined : Diagnostic → Diagnostic
  | .lexical _ cause => .lexical 0 cause
  | .grammar _ place cause => .grammar 0 place cause
  | .resolution _ cause => .resolution 0 cause

namespace Resolution

variable {ρ : NodeId → NodeId}

namespace State

/-- What has been found so far, under changed identities and without lines. -/
def outline (ρ : NodeId → NodeId) (s : State) : State :=
  { s with
    distances := s.distances.mapKeys ρ
    diagnostics := s.diagnostics.map Diagnostic.unlined }

theorem enter_outline (s : State) : (s.outline ρ).enter = s.enter.outline ρ := rfl

theorem leave_outline (s : State) : (s.outline ρ).leave = s.leave.outline ρ := rfl

theorem mark_outline (s : State) (name : String) (readiness : Readiness) :
    (s.outline ρ).mark name readiness = (s.mark name readiness).outline ρ := by
  obtain ⟨scopes, globals, distances, diagnostics⟩ := s
  cases scopes <;> rfl

theorem declare_outline (s : State) (name : Name) :
    (s.outline ρ).declare name.outline = (s.declare name).outline ρ :=
  s.mark_outline name.text .declared

theorem define_outline (s : State) (name : Name) :
    (s.outline ρ).define name.outline = (s.define name).outline ρ :=
  s.mark_outline name.text .ready

theorem report_outline (s : State) (line : Nat) (cause : ResolutionError) :
    (s.outline ρ).report 0 cause = (s.report line cause).outline ρ := by
  simp [report, outline, Diagnostic.unlined]

theorem reportIf_outline (s : State) (fault : Bool) (line : Nat) (cause : ResolutionError) :
    (s.outline ρ).reportIf fault 0 cause = (s.reportIf fault line cause).outline ρ := by
  cases fault with
  | false => rfl
  | true => exact s.report_outline line cause

theorem record_outline (hρ : Function.Injective ρ) (s : State) (id : NodeId) (name : String) :
    (s.outline ρ).record (ρ id) name = (s.record id name).outline ρ := by
  have hdistance : (s.outline ρ).distance? name = s.distance? name := rfl
  unfold record
  rw [hdistance]
  split
  · exact congrArg (fun distances ↦ { s.outline ρ with distances := distances })
      (Bindings.mapKeys_insert hρ _ _ _).symm
  · rfl

end State

open State

theorem readVariable_outline (hρ : Function.Injective ρ) (id : NodeId) (name : Name) (s : State) :
    readVariable (ρ id) name.outline (s.outline ρ) = (readVariable id name s).outline ρ := by
  change ((s.outline ρ).reportIf (s.awaits name.text) 0 _).record (ρ id) name.text = _
  rw [reportIf_outline s _ name.line, record_outline hρ]
  rfl

theorem thisAccess_outline (hρ : Function.Injective ρ) (context : Context) (id : NodeId)
    (line : Nat) (s : State) :
    thisAccess context (ρ id) 0 (s.outline ρ) = (thisAccess context id line s).outline ρ := by
  unfold thisAccess
  split
  · exact report_outline s line _
  · exact record_outline hρ s id _

theorem superAccess_outline (hρ : Function.Injective ρ) (context : Context) (id : NodeId)
    (line : Nat) (s : State) :
    superAccess context (ρ id) 0 (s.outline ρ) = (superAccess context id line s).outline ρ := by
  unfold superAccess
  split
  · exact report_outline s line _
  · exact report_outline s line _
  · exact record_outline hρ s id _

mutual

theorem expr_outline (hρ : Function.Injective ρ) (context : Context) : (e : Expr) → (s : State) →
    expr context (e.outline ρ) (s.outline ρ) = (expr context e s).outline ρ
  | .literal _, _ => rfl
  | .grouping e, s | .unary _ _ e, s | .get e _, s => expr_outline hρ context e s
  | .binary _ _ l r, s | .logical _ _ l r, s => by
    simp only [Expr.outline, expr, expr_outline hρ context l, expr_outline hρ context r]
  | .var id name, s => readVariable_outline hρ id name s
  | .assign id name e, s => by
    simp only [Expr.outline, expr, expr_outline hρ context e]
    exact record_outline hρ _ id name.text
  | .call callee _ args, s => by
    simp only [Expr.outline, expr, expr_outline hρ context callee, exprs_outline hρ context args]
  | .set o _ e, s => by
    simp only [Expr.outline, expr, expr_outline hρ context e, expr_outline hρ context o]
  | .this id line, s => thisAccess_outline hρ context id line s
  | .super id line _, s => superAccess_outline hρ context id line s

theorem exprs_outline (hρ : Function.Injective ρ) (context : Context) : (es : List Expr) →
    (s : State) →
    exprs context (Expr.outlineAll ρ es) (s.outline ρ) = (exprs context es s).outline ρ
  | [], _ => rfl
  | e :: es, s => by
    simp only [Expr.outlineAll, exprs, expr_outline hρ context e, exprs_outline hρ context es]

end

theorem optionalExpr_outline (hρ : Function.Injective ρ) (context : Context) (e : Option Expr)
    (s : State) :
    optionalExpr context (e.map (Expr.outline ρ)) (s.outline ρ) =
      (optionalExpr context e s).outline ρ := by
  cases e with
  | none => rfl
  | some e => exact expr_outline hρ context e s

theorem parameters_outline (names : List Name) (s : State) :
    parameters (names.map Name.outline) (s.outline ρ) = (parameters names s).outline ρ := by
  induction names generalizing s with
  | nil => rfl
  | cons name names ih =>
    change parameters (names.map Name.outline)
      (((s.outline ρ).declare name.outline).define name.outline) = _
    rw [declare_outline, define_outline, ih]
    rfl

theorem returnValue_outline (hρ : Function.Injective ρ) (context : Context) (line : Nat)
    (e : Option Expr) (s : State) :
    returnValue context 0 (e.map (Expr.outline ρ)) (s.outline ρ) =
      (returnValue context line e s).outline ρ := by
  cases e with
  | none => rfl
  | some e =>
    change expr context (e.outline ρ) ((s.outline ρ).reportIf _ 0 _) = _
    rw [reportIf_outline s _ line, expr_outline hρ]
    rfl

theorem enterSuperclass_outline (hρ : Function.Injective ρ) (name : Name)
    (superclass : Option Superclass) (s : State) :
    enterSuperclass name.outline (superclass.map (Superclass.outline ρ)) (s.outline ρ) =
      (enterSuperclass name superclass s).outline ρ := by
  cases superclass with
  | none => rfl
  | some superclass =>
    change (readVariable (ρ superclass.id) superclass.name.outline
      ((s.outline ρ).reportIf _ 0 _)).enter.mark "super" .ready = _
    rw [reportIf_outline s _ superclass.name.line, readVariable_outline hρ, enter_outline,
      mark_outline]
    rfl

theorem leaveSuperclass_outline (superclass : Option Superclass) (s : State) :
    leaveSuperclass (superclass.map (Superclass.outline ρ)) (s.outline ρ) =
      (leaveSuperclass superclass s).outline ρ := by
  cases superclass <;> rfl

theorem classContext_outline (superclass : Option Superclass) :
    classContext (superclass.map (Superclass.outline ρ)) = classContext superclass := by
  cases superclass <;> rfl

mutual

theorem stmt_outline (hρ : Function.Injective ρ) (context : Context) : (s : Stmt) → (st : State) →
    stmt context (s.outline ρ) (st.outline ρ) = (stmt context s st).outline ρ
  | .expression e, st | .print e, st => expr_outline hρ context e st
  | .var name initial, st => by
    simp only [Stmt.outline, stmt, declare_outline, optionalExpr_outline hρ, define_outline]
  | .block body, st => congrArg State.leave (stmts_outline hρ context body st.enter)
  | .ifThen test s, st | .loop test s, st => by
    simp only [Stmt.outline, stmt, expr_outline hρ, stmt_outline hρ context s]
  | .ifElse test s t, st => by
    simp only [Stmt.outline, stmt, expr_outline hρ, stmt_outline hρ context s,
      stmt_outline hρ context t]
  | .function ⟨name, names, body⟩, st => by
    simp only [Stmt.outline, stmt]
    change routine _ _ _ (((st.outline ρ).declare name.outline).define name.outline) = _
    rw [declare_outline, define_outline, routine_outline hρ context.owner]
  | .return_ line value, st => by
    change returnValue context 0 (value.map (Expr.outline ρ)) ((st.outline ρ).reportIf _ 0 _) = _
    rw [reportIf_outline st _ line, returnValue_outline hρ context line]
    rfl
  | .class_ name superclass methods, st => by
    simp only [Stmt.outline, stmt, declare_outline, define_outline, enterSuperclass_outline hρ,
      classContext_outline, enter_outline, mark_outline,
      routines_outline hρ (classContext superclass) methods, leave_outline, leaveSuperclass_outline]

theorem stmts_outline (hρ : Function.Injective ρ) (context : Context) : (ss : List Stmt) →
    (st : State) →
    stmts context (Stmt.outlineAll ρ ss) (st.outline ρ) = (stmts context ss st).outline ρ
  | [], _ => rfl
  | s :: ss, st => by
    simp only [Stmt.outlineAll, stmts, stmt_outline hρ context s, stmts_outline hρ context ss]

theorem routine_outline (hρ : Function.Injective ρ) (owner : ClassContext)
    (kind : RoutineContext) : (r : Routine) → (st : State) →
    routine owner kind (r.outline ρ) (st.outline ρ) = (routine owner kind r st).outline ρ
  | ⟨_, names, body⟩, st => by
    have hbody := stmts_outline hρ ⟨kind, owner⟩ body (parameters names st.enter)
    rw [← parameters_outline] at hbody
    exact congrArg State.leave hbody

theorem routines_outline (hρ : Function.Injective ρ) (owner : ClassContext) :
    (rs : List Routine) → (st : State) →
    routines owner (Routine.outlineAll ρ rs) (st.outline ρ) = (routines owner rs st).outline ρ
  | [], _ => rfl
  | ⟨name, names, body⟩ :: rs, st => by
    simp only [Routine.outlineAll, routines]
    rw [routine_outline hρ owner, routines_outline hρ owner rs]
    rfl

end

theorem ofStatements_outline (hρ : Function.Injective ρ) (ss : List Stmt) :
    ofStatements (Stmt.outlineAll ρ ss) = ⟨(ofStatements ss).distances.mapKeys ρ,
      (ofStatements ss).diagnostics.map Diagnostic.unlined⟩ :=
  congrArg (fun s : State ↦ Resolution.mk s.distances s.diagnostics)
    (stmts_outline hρ ⟨.none, .none⟩ ss .initial)

/-! ### Programs of one outline -/

section

variable {ρ' : NodeId → NodeId} (hρ : Function.Injective ρ) (hρ' : Function.Injective ρ')
  {ss ss' : List Stmt} (h : Stmt.outlineAll ρ ss = Stmt.outlineAll ρ' ss')

include hρ hρ' h

/-- Programs of one outline have the same distances under the changed identities, and if nothing is
reported of one of them then neither is it of the other. -/
theorem ofStatements_of_outline :
    (ofStatements ss).distances.mapKeys ρ = (ofStatements ss').distances.mapKeys ρ' ∧
      ((ofStatements ss).diagnostics = [] ↔ (ofStatements ss').diagnostics = []) := by
  have hresolved := congrArg ofStatements h
  rw [ofStatements_outline hρ, ofStatements_outline hρ'] at hresolved
  obtain ⟨hdistances, hdiagnostics⟩ := Resolution.mk.inj hresolved
  refine ⟨hdistances, ?_⟩
  rw [← List.map_eq_nil_iff (f := Diagnostic.unlined), hdiagnostics, List.map_eq_nil_iff]

/-- Identities in the same places of them have the same distances. -/
theorem distances_of_outline :
    (Stmt.idsAll ss).map (ofStatements ss).distances.find? =
      (Stmt.idsAll ss').map (ofStatements ss').distances.find? := by
  have hplaces := congrArg Stmt.idsAll h
  rw [Stmt.idsAll_outline, Stmt.idsAll_outline] at hplaces
  have hfound := congrArg (List.map ((ofStatements ss).distances.mapKeys ρ).find?) hplaces
  nth_rewrite 2 [(ofStatements_of_outline hρ hρ' h).1] at hfound
  simpa [Function.comp_def, Bindings.find?_mapKeys hρ, Bindings.find?_mapKeys hρ'] using hfound

end

end Resolution

end Lox
