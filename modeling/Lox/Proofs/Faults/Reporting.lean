import Lox.Proofs.Appending.Resolution
import Lox.Proofs.Faults.Violations

/-!
Resolution reports what is misplaced and nothing else. Between two statements no name is declared
that has not got its value, so within an initial value exactly the variable it is for is awaited,
and the context of the walk shows the nearest routine and the nearest class. What the walk reports
is therefore told by the tree, and so is the order in which it does.
-/

set_option autoImplicit false

namespace Lox

/-! ### Violations in the order of the walk -/

def Occurrence.reported (o : Occurrence) : List Diagnostic := o.violation?.toList

mutual

/-- The walk visits the value that is given to a property before the object. -/
def Expr.reported (π : List Enclosing) : Expr → List Diagnostic
  | .literal _ => []
  | .grouping e | .unary _ _ e | .get e _ | .assign _ _ e => e.reported π
  | .binary _ _ l r | .logical _ _ l r => l.reported π ++ r.reported π
  | .var _ name => Occurrence.reported ⟨π, .read name⟩
  | .call callee _ args => callee.reported π ++ Expr.reportedAll π args
  | .set o _ e => e.reported π ++ o.reported π
  | .this _ line => Occurrence.reported ⟨π, .this line⟩
  | .super _ line _ => Occurrence.reported ⟨π, .super line⟩

def Expr.reportedAll (π : List Enclosing) : List Expr → List Diagnostic
  | [] => []
  | e :: es => e.reported π ++ Expr.reportedAll π es

end

def Expr.reportedOf (π : List Enclosing) : Option Expr → List Diagnostic
  | none => []
  | some e => e.reported π

def Superclass.reported (π : List Enclosing) (name : Name) : Option Superclass → List Diagnostic
  | none => []
  | some s =>
    Occurrence.reported ⟨π, .extension name s.name⟩ ++ Occurrence.reported ⟨π, .read s.name⟩

mutual

def Stmt.reported (π : List Enclosing) : Stmt → List Diagnostic
  | .expression e | .print e => e.reported π
  | .var name initial => Expr.reportedOf (.initial name.text :: π) initial
  | .block body => Stmt.reportedAll π body
  | .ifThen test s | .loop test s => test.reported π ++ s.reported π
  | .ifElse test s t => test.reported π ++ (s.reported π ++ t.reported π)
  | .function r => r.reported (.function :: π)
  | .return_ line value =>
    Occurrence.reported ⟨π, .return_ line value.isSome⟩ ++ Expr.reportedOf π value
  | .class_ name superclass methods =>
    Superclass.reported π name superclass ++
      Routine.reportedAll (.class_ superclass.isSome :: π) methods

def Stmt.reportedAll (π : List Enclosing) : List Stmt → List Diagnostic
  | [] => []
  | s :: ss => s.reported π ++ Stmt.reportedAll π ss

def Routine.reported (π : List Enclosing) : Routine → List Diagnostic
  | ⟨_, _, body⟩ => Stmt.reportedAll π body

def Routine.reportedAll (π : List Enclosing) : List Routine → List Diagnostic
  | [] => []
  | r :: rs => r.reported (.method r.name.text :: π) ++ Routine.reportedAll π rs

end

/-! ### What is reported is what is wrong -/

/-- These are, in some order, the violations among the occurrences. -/
def Lists (reported : List Diagnostic) (os : Multiset Occurrence) : Prop :=
  (reported : Multiset Diagnostic) = os.filterMap Occurrence.violation?

section

variable {l l' : List Diagnostic} {os os' : Multiset Occurrence}

theorem lists_nil : Lists [] 0 := rfl

theorem lists_one (o : Occurrence) : Lists o.reported {o} := by
  unfold Lists Occurrence.reported
  cases h : o.violation? with
  | none => exact (Multiset.filterMap_cons_none o 0 h).symm
  | some d => exact (Multiset.filterMap_cons_some _ o 0 h).symm

theorem Lists.append (h : Lists l os) (h' : Lists l' os') : Lists (l ++ l') (os + os') := by
  unfold Lists at h h' ⊢
  rw [← Multiset.coe_add, h, h', Multiset.filterMap_add]

theorem Lists.append_comm (h : Lists l os) (h' : Lists l' os') : Lists (l' ++ l) (os + os') :=
  Multiset.add_comm os' os ▸ h'.append h

end

mutual

theorem lists_expr (π : List Enclosing) : (e : Expr) → Lists (e.reported π) (e.occurrences π)
  | .literal _ => lists_nil
  | .grouping e | .unary _ _ e | .get e _ | .assign _ _ e => lists_expr π e
  | .binary _ _ l r | .logical _ _ l r => (lists_expr π l).append (lists_expr π r)
  | .var _ _ | .this _ _ | .super _ _ _ => lists_one _
  | .call callee _ args => (lists_expr π callee).append (lists_exprs π args)
  | .set o _ e => (lists_expr π o).append_comm (lists_expr π e)

theorem lists_exprs (π : List Enclosing) :
    (es : List Expr) → Lists (Expr.reportedAll π es) (Expr.occurrencesAll π es)
  | [] => lists_nil
  | e :: es => (lists_expr π e).append (lists_exprs π es)

end

theorem lists_optionalExpr (π : List Enclosing) :
    (e : Option Expr) → Lists (Expr.reportedOf π e) (Expr.occurrencesOf π e)
  | none => lists_nil
  | some e => lists_expr π e

theorem lists_superclass (π : List Enclosing) (name : Name) :
    (s : Option Superclass) → Lists (Superclass.reported π name s) (Superclass.occurrences π name s)
  | none => lists_nil
  | some _ => (lists_one _).append (lists_one _)

mutual

theorem lists_stmt (π : List Enclosing) : (s : Stmt) → Lists (s.reported π) (s.occurrences π)
  | .expression e | .print e => lists_expr π e
  | .var _ initial => lists_optionalExpr _ initial
  | .block body => lists_stmts π body
  | .ifThen test s | .loop test s => (lists_expr π test).append (lists_stmt π s)
  | .ifElse test s t =>
    (lists_expr π test).append ((lists_stmt π s).append (lists_stmt π t))
  | .function r => lists_routine _ r
  | .return_ _ value => (lists_one _).append (lists_optionalExpr π value)
  | .class_ name superclass methods =>
    (lists_superclass π name superclass).append (lists_routines _ methods)

theorem lists_stmts (π : List Enclosing) :
    (ss : List Stmt) → Lists (Stmt.reportedAll π ss) (Stmt.occurrencesAll π ss)
  | [] => lists_nil
  | s :: ss => (lists_stmt π s).append (lists_stmts π ss)

theorem lists_routine (π : List Enclosing) :
    (r : Routine) → Lists (r.reported π) (r.occurrences π)
  | ⟨_, _, body⟩ => lists_stmts π body

theorem lists_routines (π : List Enclosing) :
    (rs : List Routine) → Lists (Routine.reportedAll π rs) (Routine.occurrencesAll π rs)
  | [] => lists_nil
  | r :: rs => (lists_routine _ r).append (lists_routines π rs)

end

namespace Resolution

/-! ### Names that are awaited -/

namespace State

/-- Every name has its value that is declared. -/
structure Ready (s : State) : Prop where
  scopes : ∀ scope ∈ s.scopes, ∀ x, scope.find? x ≠ some .declared
  globals : ∀ x, ¬s.Waits x

/-- The names that are awaited are those of the variables around whose initial value this is. -/
def Awaits (s : State) (π : List Enclosing) : Prop :=
  ∀ x, s.awaits x = true ↔ .initial x ∈ π

variable {s s' : State} {π : List Enclosing}

theorem ready_initial : initial.Ready := ⟨nofun, nofun⟩

theorem Ready.congr (h : s.Ready) (hscopes : s'.scopes = s.scopes)
    (hglobals : s'.globals = s.globals) : s'.Ready := by
  refine ⟨by rw [hscopes]; exact h.scopes, fun x hwaits ↦ h.globals x ?_⟩
  unfold Waits at hwaits ⊢
  rwa [← hglobals]

theorem Ready.enter (h : s.Ready) : s.enter.Ready := by
  refine ⟨fun scope hscope ↦ ?_, h.globals⟩
  rcases List.mem_cons.1 hscope with rfl | hscope
  · exact fun x ↦ nofun
  · exact h.scopes scope hscope

theorem Ready.leave (h : s.Ready) : s.leave.Ready :=
  ⟨fun scope hscope ↦ h.scopes scope (List.mem_of_mem_tail hscope), h.globals⟩

/-- To give a name its value makes no name wait. -/
theorem Ready.mark (h : s.Ready) (name : String) : (s.mark name .ready).Ready := by
  refine ⟨?_, fun x hwaits ↦ h.globals x hwaits.of_ready⟩
  unfold State.mark
  split
  · exact h.scopes
  next first outer hscopes =>
    intro scope hscope x
    have hready := h.scopes
    rw [hscopes] at hready
    rcases List.mem_cons.1 hscope with rfl | hscope
    · rw [Bindings.find?_insert]
      split
      · rintro ⟨⟩
      · exact hready first (List.mem_cons_self ..) x
    · exact hready scope (List.mem_cons_of_mem _ hscope) x

theorem Ready.declare_define (h : s.Ready) (name : Name) :
    ((s.declare name).define name).Ready := by
  refine ⟨?_, fun x hwaits ↦ h.globals x hwaits.of_declare_define⟩
  have hready := h.scopes
  cases hscopes : s.scopes with
  | nil => simp [declare, define, State.mark, hscopes]
  | cons first outer =>
    rw [hscopes] at hready
    simp only [declare, define, State.mark, hscopes]
    intro scope hscope x
    rcases List.mem_cons.1 hscope with rfl | hscope
    · simp only [Bindings.find?_insert]
      split
      · rintro ⟨⟩
      · exact hready first (List.mem_cons_self ..) x
    · exact hready scope (List.mem_cons_of_mem _ hscope) x

theorem scopes_mark {name : String} {readiness : Readiness} (hscopes : s.scopes = s'.scopes) :
    (s.mark name readiness).scopes = (s'.mark name readiness).scopes := by
  unfold State.mark
  rw [hscopes]
  split <;> rfl

/-- Where every name has its value none is awaited. -/
theorem Ready.awaits (h : s.Ready) (hπ : ∀ x, .initial x ∉ π) : s.Awaits π := by
  intro x
  refine iff_of_false (fun hawaits ↦ ?_) (hπ x)
  have hglobal : s.globals.find? x ≠ some .declared := h.globals x
  have hready := h.scopes
  unfold State.awaits at hawaits
  cases hscopes : s.scopes with
  | nil => simp [hscopes, hglobal] at hawaits
  | cons first outer =>
    rw [hscopes] at hready
    simp [hscopes, hglobal, hready first (List.mem_cons_self ..) x] at hawaits

/-- A name that has just been declared is the only one that is awaited. -/
theorem Ready.awaits_declare (h : s.Ready) (hπ : ∀ x, .initial x ∉ π) (name : Name) :
    (s.declare name).Awaits (.initial name.text :: π) := by
  intro x
  have hmem : Enclosing.initial x ∈ Enclosing.initial name.text :: π ↔ name.text = x := by
    simp [hπ x, eq_comm]
  rw [hmem]
  have hready := h.scopes
  have hglobal : s.globals.find? x ≠ some .declared := h.globals x
  cases hscopes : s.scopes with
  | nil =>
    simp only [State.awaits, declare, State.mark, hscopes, distance?, List.findIdx?_nil,
      Bindings.find?_insert]
    by_cases heq : name.text = x <;> simp [heq, hglobal]
  | cons first outer =>
    rw [hscopes] at hready
    simp only [State.awaits, declare, State.mark, hscopes, Bindings.find?_insert, hglobal]
    by_cases heq : name.text = x
    · simp [heq]
    · simp [heq, hready first (List.mem_cons_self ..) x]

theorem Awaits.congr (h : s.Awaits π) (hscopes : s'.scopes = s.scopes)
    (hglobals : s'.globals = s.globals) : s'.Awaits π := by
  intro x
  rw [← h x]
  unfold State.awaits State.distance?
  rw [hscopes, hglobals]

end State

open State

/-! ### The walk -/

/-- The kind of routine that the code in it belongs to. -/
def routineContext : Option Enclosing → RoutineContext
  | none => .none
  | some (.method name) => if name = initializerName then .initializer else .method
  | some _ => .function

def ownerContext : Option Bool → ClassContext
  | none => .none
  | some false => .class_
  | some true => .subclass

/-- The context of code that stands in all this. -/
def Context.within (π : List Enclosing) : Context :=
  ⟨routineContext (π.find? Enclosing.isRoutine), ownerContext (π.findSome? Enclosing.extending?)⟩

section

variable {π : List Enclosing} {s : State}

theorem diagnostics_reportIf (fault : Bool) (line : Nat) (cause : ResolutionError) :
    (s.reportIf fault line cause).diagnostics =
      s.diagnostics ++ if fault = true then [.resolution line cause] else [] := by
  cases fault
  · exact (List.append_nil _).symm
  · rfl

theorem diagnostics_record (id : NodeId) (name : String) :
    (s.record id name).diagnostics = s.diagnostics := by
  unfold record
  split <;> rfl

theorem diagnostics_readVariable (h : s.Awaits π) (id : NodeId) (name : Name) :
    (readVariable id name s).diagnostics =
      s.diagnostics ++ Occurrence.reported ⟨π, .read name⟩ := by
  unfold readVariable
  rw [diagnostics_record, diagnostics_reportIf]
  by_cases hmem : .initial name.text ∈ π <;>
    simp [Occurrence.reported, Occurrence.violation?, h name.text, hmem]

theorem diagnostics_thisAccess (id : NodeId) (line : Nat) :
    (thisAccess (.within π) id line s).diagnostics =
      s.diagnostics ++ Occurrence.reported ⟨π, .this line⟩ := by
  unfold thisAccess Context.within Occurrence.reported Occurrence.violation?
  cases π.findSome? Enclosing.extending? with
  | none => rfl
  | some extending => cases extending <;> simp [ownerContext, diagnostics_record]

theorem diagnostics_superAccess (id : NodeId) (line : Nat) :
    (superAccess (.within π) id line s).diagnostics =
      s.diagnostics ++ Occurrence.reported ⟨π, .super line⟩ := by
  unfold superAccess Context.within Occurrence.reported Occurrence.violation?
  cases π.findSome? Enclosing.extending? with
  | none => rfl
  | some extending =>
    cases extending
    · rfl
    · simp [ownerContext, diagnostics_record]

end

/-- A walk over expressions that reports this where these names are awaited. -/
def Finds (π : List Enclosing) (walk : State → State) (reported : List Diagnostic) : Prop :=
  ∀ s, s.Awaits π → (walk s).diagnostics = s.diagnostics ++ reported

theorem Finds.comp {π : List Enclosing} {walk walk' : State → State}
    {reported reported' : List Diagnostic} (h : Finds π walk reported) (hkeeps : KeepsNames walk)
    (h' : Finds π walk' reported') :
    Finds π (fun s ↦ walk' (walk s)) (reported ++ reported') := fun s hs ↦ by
  rw [h' _ (hs.congr (hkeeps s).1 (hkeeps s).2), h s hs, List.append_assoc]

mutual

theorem finds_expr (π : List Enclosing) :
    (e : Expr) → Finds π (expr (.within π) e) (e.reported π)
  | .literal _ => fun s _ ↦ (List.append_nil s.diagnostics).symm
  | .grouping e | .unary _ _ e | .get e _ => finds_expr π e
  | .binary _ _ l r | .logical _ _ l r =>
    (finds_expr π l).comp (keepsNames_expr _ l) (finds_expr π r)
  | .var id name => fun _ hs ↦ diagnostics_readVariable hs id name
  | .assign id name e => fun s hs ↦ (diagnostics_record id name.text).trans (finds_expr π e s hs)
  | .call callee _ args =>
    (finds_expr π callee).comp (keepsNames_expr _ callee) (finds_exprs π args)
  | .set o _ e => (finds_expr π e).comp (keepsNames_expr _ e) (finds_expr π o)
  | .this id line => fun _ _ ↦ diagnostics_thisAccess id line
  | .super id line _ => fun _ _ ↦ diagnostics_superAccess id line

theorem finds_exprs (π : List Enclosing) :
    (es : List Expr) → Finds π (exprs (.within π) es) (Expr.reportedAll π es)
  | [] => fun s _ ↦ (List.append_nil s.diagnostics).symm
  | e :: es => (finds_expr π e).comp (keepsNames_expr _ e) (finds_exprs π es)

end

theorem finds_optionalExpr (π : List Enclosing) :
    (e : Option Expr) → Finds π (optionalExpr (.within π) e) (Expr.reportedOf π e)
  | none => fun s _ ↦ (List.append_nil s.diagnostics).symm
  | some e => finds_expr π e

/-- A walk from one place where every name has its value to another, which reports this. -/
structure Reports (walk : State → State) (reported : List Diagnostic) : Prop where
  ready : ∀ s, s.Ready → (walk s).Ready
  diagnostics : ∀ s, s.Ready → (walk s).diagnostics = s.diagnostics ++ reported

section

variable {walk walk' : State → State} {reported reported' : List Diagnostic}
  {π : List Enclosing}

theorem Reports.comp (h : Reports walk reported) (h' : Reports walk' reported') :
    Reports (fun s ↦ walk' (walk s)) (reported ++ reported') :=
  ⟨fun s hs ↦ h'.ready _ (h.ready s hs), fun s hs ↦ by
    rw [h'.diagnostics _ (h.ready s hs), h.diagnostics s hs, List.append_assoc]⟩

/-- A walk between steps that only open and close scopes and mark names. -/
theorem Reports.between (h : Reports walk reported) {first last : State → State}
    (hfirst : Reports first []) (hlast : Reports last []) :
    Reports (fun s ↦ last (walk (first s))) reported :=
  List.append_nil reported ▸ hfirst.comp (h.comp hlast)

theorem Finds.reports (h : Finds π walk reported) (hkeeps : KeepsNames walk)
    (hπ : ∀ x, .initial x ∉ π) : Reports walk reported :=
  ⟨fun s hs ↦ hs.congr (hkeeps s).1 (hkeeps s).2, fun s hs ↦ h s (hs.awaits hπ)⟩

theorem reports_nothing {step : State → State} (hready : ∀ s, s.Ready → (step s).Ready)
    (hdiagnostics : ∀ s, (step s).diagnostics = s.diagnostics) : Reports step [] :=
  ⟨hready, fun s _ ↦ (hdiagnostics s).trans (List.append_nil _).symm⟩

theorem reports_enter : Reports State.enter [] := reports_nothing (fun _ h ↦ h.enter) fun _ ↦ rfl

theorem reports_leave : Reports State.leave [] := reports_nothing (fun _ h ↦ h.leave) fun _ ↦ rfl

theorem reports_mark (name : String) : Reports (fun s ↦ s.mark name .ready) [] :=
  reports_nothing (fun _ h ↦ h.mark name) fun s ↦ diagnostics_mark s name .ready

theorem reports_declare_define (name : Name) :
    Reports (fun s ↦ (s.declare name).define name) [] :=
  reports_nothing (fun _ h ↦ h.declare_define name)
    fun s ↦ (diagnostics_mark _ _ _).trans (diagnostics_mark s _ _)

theorem reports_parameters (names : List Name) : Reports (parameters names) [] := by
  induction names with
  | nil => exact reports_nothing (fun _ h ↦ h) fun _ ↦ rfl
  | cons name names ih => exact (reports_declare_define name).comp ih

theorem reports_var (hπ : ∀ x, .initial x ∉ π) (name : Name) (initial : Option Expr) :
    Reports (stmt (.within π) (.var name initial))
      (Expr.reportedOf (.initial name.text :: π) initial) := by
  refine ⟨fun s hs ↦ ?_, fun s hs ↦ ?_⟩
  · obtain ⟨hscopes, hglobals⟩ := keepsNames_optionalExpr (.within π) initial (s.declare name)
    exact (hs.declare_define name).congr (scopes_mark hscopes) (globals_mark hscopes hglobals)
  · change (State.define _ name).diagnostics = _
    rw [State.define, diagnostics_mark]
    exact (finds_optionalExpr _ initial _ (hs.awaits_declare hπ name)).trans
      (congrArg (· ++ _) (diagnostics_mark s _ _))

theorem reports_reportIf (fault : Bool) (line : Nat) (cause : ResolutionError) :
    Reports (fun s ↦ s.reportIf fault line cause)
      (if fault = true then [.resolution line cause] else []) :=
  ⟨fun _ hs ↦ hs.congr (globals_reportIf _ _ _).1 (globals_reportIf _ _ _).2,
    fun _ _ ↦ diagnostics_reportIf fault line cause⟩

/-- What stands outside of every routine does not stand in an initializer. -/
theorem reported_return (π : List Enclosing) (line : Nat) (valued : Bool) :
    Occurrence.reported ⟨π, .return_ line valued⟩ =
      (if decide ((Context.within π).routine = .none) = true then
        [.resolution line .returnOutsideFunction] else []) ++
      (if (valued && decide ((Context.within π).routine = .initializer)) = true then
        [.resolution line .valueFromInitializer] else []) := by
  unfold Occurrence.reported Occurrence.violation? Context.within
  cases hroutine : π.find? Enclosing.isRoutine with
  | none => simp [routineContext]
  | some r =>
    cases r with
    | method name =>
      by_cases hname : name = initializerName <;> cases valued <;> simp [routineContext, hname]
    | initial _ | function | class_ _ => simp [routineContext]

/-- A return statement is looked at before its value is. -/
theorem reports_return (hπ : ∀ x, .initial x ∉ π) (line : Nat) (value : Option Expr) :
    Reports (stmt (.within π) (.return_ line value))
      (Occurrence.reported ⟨π, .return_ line value.isSome⟩ ++ Expr.reportedOf π value) := by
  rw [reported_return, List.append_assoc]
  refine (reports_reportIf _ line .returnOutsideFunction).comp ?_
  cases value with
  | none => exact reports_nothing (fun _ h ↦ h) fun _ ↦ rfl
  | some e =>
    exact (reports_reportIf _ line .valueFromInitializer).comp
      ((finds_expr π e).reports (keepsNames_expr _ e) hπ)

theorem reports_enterSuperclass (hπ : ∀ x, .initial x ∉ π) (name : Name)
    (superclass : Option Superclass) :
    Reports (enterSuperclass name superclass) (Superclass.reported π name superclass) := by
  cases superclass with
  | none => exact reports_nothing (fun _ h ↦ h) fun _ ↦ rfl
  | some s =>
    have hextension : Occurrence.reported ⟨π, .extension name s.name⟩ =
        if decide (s.name.text = name.text) = true then
          [.resolution s.name.line .selfInheritance] else [] := by
      by_cases heq : s.name.text = name.text <;>
        simp [Occurrence.reported, Occurrence.violation?, heq]
    have hread : Reports (readVariable s.id s.name) (Occurrence.reported ⟨π, .read s.name⟩) :=
      Finds.reports (fun _ hs ↦ diagnostics_readVariable hs s.id s.name)
        (keepsNames_readVariable _ _) hπ
    have hopened := hread.comp (reports_enter.comp (reports_mark "super"))
    rw [List.append_nil, List.append_nil] at hopened
    rw [Superclass.reported, hextension]
    exact (reports_reportIf _ s.name.line .selfInheritance).comp hopened

theorem reports_leaveSuperclass (superclass : Option Superclass) :
    Reports (leaveSuperclass superclass) [] := by
  cases superclass with
  | none => exact reports_nothing (fun _ h ↦ h) fun _ ↦ rfl
  | some s => exact reports_leave

theorem not_mem_cons {e : Enclosing} (he : ∀ x, e ≠ .initial x) (hπ : ∀ x, .initial x ∉ π)
    (x : String) :
    .initial x ∉ e :: π := by
  rw [List.mem_cons, not_or]
  exact ⟨fun h ↦ he x h.symm, hπ x⟩

end

theorem ownerContext_isSome (superclass : Option Superclass) :
    ownerContext (some superclass.isSome) = classContext superclass := by
  cases superclass <;> rfl

mutual

theorem reports_stmt {π : List Enclosing} (hπ : ∀ x, .initial x ∉ π) :
    (s : Stmt) → Reports (stmt (.within π) s) (s.reported π)
  | .expression e | .print e => (finds_expr π e).reports (keepsNames_expr _ e) hπ
  | .var name initial => reports_var hπ name initial
  | .block body => (reports_stmts hπ body).between reports_enter reports_leave
  | .ifThen test s | .loop test s =>
    ((finds_expr π test).reports (keepsNames_expr _ test) hπ).comp (reports_stmt hπ s)
  | .ifElse test s t =>
    ((finds_expr π test).reports (keepsNames_expr _ test) hπ).comp
      ((reports_stmt hπ s).comp (reports_stmt hπ t))
  | .function r =>
    (reports_declare_define r.name).comp
      (reports_routine (not_mem_cons (e := .function) nofun hπ) r)
  | .return_ line value => reports_return hπ line value
  | .class_ name superclass methods => by
    have hmethods :=
      reports_routines (not_mem_cons (e := .class_ superclass.isSome) nofun hπ) methods
    have howner : (Context.within (.class_ superclass.isSome :: π)).owner =
        classContext superclass := ownerContext_isSome superclass
    rw [howner] at hmethods
    exact (reports_declare_define name).comp ((reports_enterSuperclass hπ name superclass).comp
      (hmethods.between (reports_enter.comp (reports_mark "this"))
        (reports_leave.comp (reports_leaveSuperclass superclass))))

theorem reports_stmts {π : List Enclosing} (hπ : ∀ x, .initial x ∉ π) :
    (ss : List Stmt) → Reports (stmts (.within π) ss) (Stmt.reportedAll π ss)
  | [] => reports_nothing (fun _ h ↦ h) fun _ ↦ rfl
  | s :: ss => (reports_stmt hπ s).comp (reports_stmts hπ ss)

theorem reports_routine {π : List Enclosing} (hπ : ∀ x, .initial x ∉ π) :
    (r : Routine) →
      Reports (routine (Context.within π).owner (Context.within π).routine r) (r.reported π)
  | ⟨_, names, body⟩ =>
    (reports_stmts hπ body).between (reports_enter.comp (reports_parameters names)) reports_leave

theorem reports_routines {π : List Enclosing} (hπ : ∀ x, .initial x ∉ π) :
    (rs : List Routine) → Reports (routines (Context.within π).owner rs) (Routine.reportedAll π rs)
  | [] => reports_nothing (fun _ h ↦ h) fun _ ↦ rfl
  | r :: rs =>
    (reports_routine (not_mem_cons (e := .method r.name.text) nofun hπ) r).comp
      (reports_routines hπ rs)

end

/-- Resolution reports the violations in the order in which it visits them. -/
theorem diagnostics_ofStatements (ss : List Stmt) :
    (Resolution.ofStatements ss).diagnostics = Stmt.reportedAll [] ss :=
  (reports_stmts (π := []) nofun ss).diagnostics .initial State.ready_initial

/-- One error for each violation, and no other, with its line and its message. -/
theorem reports_violations (ss : List Stmt) :
    ((Resolution.ofStatements ss).diagnostics.map fun d ↦ (d.line, d.message) :
        Multiset (Nat × String)) =
      (Stmt.violations ss).map fun d ↦ (d.line, d.message) := by
  have hlists : (Stmt.reportedAll [] ss : Multiset Diagnostic) = Stmt.violations ss :=
    lists_stmts [] ss
  rw [diagnostics_ofStatements, ← Multiset.map_coe, hlists]

end Resolution

end Lox
