import Lox.Proofs.Appending.Reading
import Lox.Proofs.Scope.Accepted

/-!
Resolution of statements behind others. When resolution is through with the first ones no scope is
open and no global name is declared that has not got its value, so it goes over the others as if
they came first: it reports the same, later, and records the same distances, for other identities.
-/

set_option autoImplicit false

namespace Lox

/-- The distances of nodes whose identities are so much higher. -/
def Distances.later (D : Distances) (ids : Nat) : Distances :=
  ⟨D.entries.map fun e ↦ (e.1 + ids, e.2)⟩

namespace Bindings

variable {α : Type}

theorem put_map_add (ids key : Nat) (value : α) (entries : List (Nat × α)) :
    put (key + ids) value (entries.map fun e ↦ (e.1 + ids, e.2)) =
      (put key value entries).map fun e ↦ (e.1 + ids, e.2) := by
  induction entries with
  | nil => rfl
  | cons e rest ih =>
    by_cases hkey : e.1 = key
    · simp [put, hkey]
    · have hkey' : ¬e.1 + ids = key + ids := fun h ↦ hkey (Nat.add_right_cancel h)
      simp [put, hkey, ih]

theorem put_append {κ : Type} [DecidableEq κ] {key : κ} (value : α) {entries : List (κ × α)}
    (h : ∀ e ∈ entries, e.1 ≠ key) (more : List (κ × α)) :
    put key value (entries ++ more) = entries ++ put key value more := by
  induction entries with
  | nil => rfl
  | cons e rest ih =>
    rw [List.cons_append, put, if_neg (h e (List.mem_cons_self ..)),
      ih fun e' he ↦ h e' (List.mem_cons_of_mem _ he)]
    rfl

theorem ne_of_find?_none {κ : Type} [DecidableEq κ] {b : Bindings κ α} {key : κ}
    (h : b.find? key = none) : ∀ e ∈ b.entries, e.1 ≠ key := by
  obtain ⟨entries⟩ := b
  induction entries with
  | nil => exact nofun
  | cons entry rest ih =>
    intro e he heq
    by_cases hkey : entry.1 = key
    · simp [find?, lookup, hkey] at h
    · have hrest : (⟨rest⟩ : Bindings κ α).find? key = none := by
        simpa [find?, lookup, hkey] using h
      rcases List.mem_cons.1 he with rfl | he
      · exact hkey heq
      · exact ih hrest e he heq

end Bindings

namespace Resolution

/-! ### Global names that wait -/

namespace State

/-- A global name that is declared and has not got its value. -/
def Waits (s : State) (x : String) : Prop := s.globals.find? x = some .declared

variable {s : State} {x : String}

theorem globals_reportIf (fault : Bool) (line : Nat) (cause : ResolutionError) :
    (s.reportIf fault line cause).scopes = s.scopes ∧
      (s.reportIf fault line cause).globals = s.globals := by
  unfold reportIf
  split <;> exact ⟨rfl, rfl⟩

theorem globals_record (id : NodeId) (name : String) :
    (s.record id name).scopes = s.scopes ∧ (s.record id name).globals = s.globals := by
  unfold record
  split <;> exact ⟨rfl, rfl⟩

theorem globals_mark {s' : State} {name : String} {readiness : Readiness}
    (hscopes : s.scopes = s'.scopes) (hglobals : s.globals = s'.globals) :
    (s.mark name readiness).globals = (s'.mark name readiness).globals := by
  unfold mark
  rw [hscopes, hglobals]
  split <;> rfl

theorem Waits.of_ready {name : String} (h : (s.mark name .ready).Waits x) : s.Waits x := by
  unfold Waits mark at h
  split at h
  · rw [Bindings.find?_insert] at h
    split at h
    · cases h
    · exact h
  · exact h

theorem Waits.of_declare_define {name : Name} (h : ((s.declare name).define name).Waits x) :
    s.Waits x := by
  have hwaits := h.of_ready
  unfold declare Waits mark at hwaits
  split at hwaits
  next hscopes =>
    by_cases heq : name.text = x
    · -- A global name is ready when it has been defined.
      unfold define declare Waits mark at h
      simp only [hscopes] at h
      rw [heq, Bindings.find?_insert, if_pos rfl] at h
      cases h
    · rw [Bindings.find?_insert, if_neg heq] at hwaits
      exact hwaits
  next => exact hwaits

end State

open State

/-- A walk after which the scopes and the global names are what they were. -/
def KeepsNames (walk : State → State) : Prop :=
  ∀ s, (walk s).scopes = s.scopes ∧ (walk s).globals = s.globals

theorem KeepsNames.comp {walk walk' : State → State} (h : KeepsNames walk)
    (h' : KeepsNames walk') : KeepsNames fun s ↦ walk' (walk s) := fun s ↦
  ⟨(h' (walk s)).1.trans (h s).1, (h' (walk s)).2.trans (h s).2⟩

theorem keepsNames_readVariable (id : NodeId) (name : Name) :
    KeepsNames (readVariable id name) := fun s ↦ by
  obtain ⟨hscopes, hglobals⟩ := globals_record (s := s.reportIf (s.awaits name.text) name.line
    .ownInitializer) id name.text
  obtain ⟨hscopes', hglobals'⟩ := globals_reportIf (s := s) (s.awaits name.text) name.line
    .ownInitializer
  exact ⟨hscopes.trans hscopes', hglobals.trans hglobals'⟩

mutual

theorem keepsNames_expr (context : Context) : (e : Expr) → KeepsNames (expr context e)
  | .literal _ => fun _ ↦ ⟨rfl, rfl⟩
  | .grouping e | .unary _ _ e | .get e _ => keepsNames_expr context e
  | .binary _ _ l r | .logical _ _ l r =>
    (keepsNames_expr context l).comp (keepsNames_expr context r)
  | .var id name => keepsNames_readVariable id name
  | .assign id name e => (keepsNames_expr context e).comp fun _ ↦ globals_record id name.text
  | .call callee _ args => (keepsNames_expr context callee).comp (keepsNames_exprs context args)
  | .set o _ e => (keepsNames_expr context e).comp (keepsNames_expr context o)
  | .this id line => fun s ↦ by
    change (thisAccess context id line s).scopes = _ ∧ (thisAccess context id line s).globals = _
    unfold thisAccess
    split
    · exact ⟨rfl, rfl⟩
    · exact globals_record id "this"
  | .super id line _ => fun s ↦ by
    change (superAccess context id line s).scopes = _ ∧ (superAccess context id line s).globals = _
    unfold superAccess
    split
    · exact ⟨rfl, rfl⟩
    · exact ⟨rfl, rfl⟩
    · exact globals_record id "super"

theorem keepsNames_exprs (context : Context) : (es : List Expr) → KeepsNames (exprs context es)
  | [] => fun _ ↦ ⟨rfl, rfl⟩
  | e :: es => (keepsNames_expr context e).comp (keepsNames_exprs context es)

end

theorem keepsNames_optionalExpr (context : Context) :
    (e : Option Expr) → KeepsNames (optionalExpr context e)
  | none => fun _ ↦ ⟨rfl, rfl⟩
  | some e => keepsNames_expr context e

/-- A walk after which no other global names wait than before. -/
def Readies (walk : State → State) : Prop := ∀ s x, (walk s).Waits x → s.Waits x

theorem KeepsNames.readies {walk : State → State} (h : KeepsNames walk) : Readies walk :=
  fun s x hwaits ↦ by
    unfold Waits at hwaits ⊢
    rwa [(h s).2] at hwaits

theorem Readies.comp {walk walk' : State → State} (h : Readies walk) (h' : Readies walk') :
    Readies fun s ↦ walk' (walk s) := fun s x hwaits ↦ h s x (h' (walk s) x hwaits)

theorem readies_declare_define (name : Name) : Readies fun s ↦ (s.declare name).define name :=
  fun _ _ h ↦ h.of_declare_define

/-- A scope that begins with one name. -/
theorem readies_enter_mark (name : String) : Readies fun s ↦ s.enter.mark name .ready :=
  fun s _ h ↦ Waits.of_ready (s := s.enter) h

theorem readies_parameters (names : List Name) : Readies (parameters names) := by
  induction names with
  | nil => exact fun _ _ h ↦ h
  | cons name names ih => exact (readies_declare_define name).comp ih

theorem readies_returnValue (context : Context) (line : Nat) (value : Option Expr) :
    Readies (returnValue context line value) := by
  cases value with
  | none => exact fun _ _ h ↦ h
  | some e =>
    exact KeepsNames.readies ((show KeepsNames _ from fun _ ↦ globals_reportIf _ _ _).comp
      (keepsNames_expr context e))

theorem readies_enterSuperclass (name : Name) (superclass : Option Superclass) :
    Readies (enterSuperclass name superclass) := by
  cases superclass with
  | none => exact fun _ _ h ↦ h
  | some s =>
    have hread : KeepsNames fun st ↦ readVariable s.id s.name
        (st.reportIf (decide (s.name.text = name.text)) s.name.line .selfInheritance) :=
      (show KeepsNames _ from fun _ ↦ globals_reportIf _ _ _).comp (keepsNames_readVariable _ _)
    exact hread.readies.comp (readies_enter_mark "super")

/-- The value of a variable is walked over between its declaration and its definition. -/
theorem readies_var (context : Context) (name : Name) (initial : Option Expr) :
    Readies (stmt context (.var name initial)) := fun s x h ↦ by
  obtain ⟨hscopes, hglobals⟩ := keepsNames_optionalExpr context initial (s.declare name)
  refine readies_declare_define name s x ?_
  change ((optionalExpr context initial (s.declare name)).define name).globals.find? x = _ at h
  rw [show (State.define _ name).globals = _ from globals_mark hscopes hglobals] at h
  exact h

mutual

theorem readies_stmt (context : Context) : (s : Stmt) → Readies (stmt context s)
  | .expression e | .print e => (keepsNames_expr context e).readies
  | .var name initial => readies_var context name initial
  | .block body =>
    (show Readies State.enter from fun _ _ h ↦ h).comp
      ((readies_stmts context body).comp (show Readies State.leave from fun _ _ h ↦ h))
  | .ifThen test s | .loop test s =>
    (keepsNames_expr context test).readies.comp (readies_stmt context s)
  | .ifElse test s t =>
    (keepsNames_expr context test).readies.comp
      ((readies_stmt context s).comp (readies_stmt context t))
  | .function r =>
    (readies_declare_define r.name).comp (readies_routine context.owner .function r)
  | .return_ line value =>
    (show KeepsNames _ from fun _ ↦ globals_reportIf _ _ _).readies.comp
      (readies_returnValue context line value)
  | .class_ name superclass methods => fun s x h ↦ by
    have hmethods := readies_routines (classContext superclass) methods
    refine readies_declare_define name s x (readies_enterSuperclass name superclass _ x ?_)
    refine readies_enter_mark "this" _ x (hmethods _ x ?_)
    cases superclass <;> exact h

theorem readies_stmts (context : Context) : (ss : List Stmt) → Readies (stmts context ss)
  | [] => fun _ _ h ↦ h
  | s :: ss => (readies_stmt context s).comp (readies_stmts context ss)

theorem readies_routine (owner : ClassContext) (kind : RoutineContext) :
    (r : Routine) → Readies (routine owner kind r)
  | ⟨_, names, body⟩ =>
    (show Readies State.enter from fun _ _ h ↦ h).comp ((readies_parameters names).comp
      ((readies_stmts _ body).comp (show Readies State.leave from fun _ _ h ↦ h)))

theorem readies_routines (owner : ClassContext) :
    (rs : List Routine) → Readies (routines owner rs)
  | [] => fun _ _ h ↦ h
  | r :: rs => (readies_routine owner _ r).comp (readies_routines owner rs)

end

/-! ### The same walk behind another -/

/-- The second state is behind other statements what the first one is without them. Those
statements have recorded distances for lower identities. -/
structure Behind (δ : Shift) (before : Distances) (s s' : State) : Prop where
  lower : ∀ e ∈ before.entries, e.1 < δ.ids
  scopes : s'.scopes = s.scopes
  waits : ∀ x, s'.Waits x ↔ s.Waits x
  distances : s'.distances.entries = before.entries ++ (s.distances.later δ.ids).entries
  diagnostics : s'.diagnostics = s.diagnostics.map (Diagnostic.later δ.lines)

/-- Two walks, with and without other statements before. -/
def WalksBehind (δ : Shift) (before : Distances) (walk walk' : State → State) : Prop :=
  ∀ s s', Behind δ before s s' → Behind δ before (walk s) (walk' s')

section

variable {δ : Shift} {before : Distances} {walk walk' next next' : State → State}

theorem WalksBehind.comp (h : WalksBehind δ before walk walk')
    (h' : WalksBehind δ before next next') :
    WalksBehind δ before (fun s ↦ next (walk s)) fun s ↦ next' (walk' s) :=
  fun s s' hs ↦ h' _ _ (h s s' hs)

theorem walksBehind_mark (name : String) (readiness : Readiness) :
    WalksBehind δ before (fun s ↦ s.mark name readiness) fun s ↦ s.mark name readiness := by
  intro s s' h
  change Behind δ before (s.mark name readiness) (s'.mark name readiness)
  unfold State.mark
  rw [h.scopes]
  split
  next hscopes =>
    refine { h with scopes := rfl, waits := fun x ↦ ?_ }
    unfold State.Waits
    rw [Bindings.find?_insert, Bindings.find?_insert]
    split
    · exact Iff.rfl
    · exact h.waits x
  next => exact { h with scopes := rfl }

theorem walksBehind_enter : WalksBehind δ before State.enter State.enter := fun _ _ h ↦
  { h with scopes := by simp only [State.enter, h.scopes] }

theorem walksBehind_leave : WalksBehind δ before State.leave State.leave := fun _ _ h ↦
  { h with scopes := congrArg List.tail h.scopes }

theorem walksBehind_report (line : Nat) (cause : ResolutionError) :
    WalksBehind δ before (fun s ↦ s.report line cause)
      fun s ↦ s.report (line + δ.lines) cause := by
  intro s s' h
  refine { h with diagnostics := ?_ }
  change s'.diagnostics ++ _ = (s.diagnostics ++ _).map _
  rw [h.diagnostics, List.map_append]
  rfl

theorem Behind.reportIf {s s' : State} (h : Behind δ before s s') (fault : Bool) (line : Nat)
    (cause : ResolutionError) :
    Behind δ before (s.reportIf fault line cause) (s'.reportIf fault (line + δ.lines) cause) := by
  cases fault with
  | true => exact walksBehind_report line cause s s' h
  | false => exact h

theorem Behind.distance? {s s' : State} (h : Behind δ before s s') (name : String) :
    s'.distance? name = s.distance? name := by
  unfold State.distance?
  rw [h.scopes]

theorem Behind.awaits {s s' : State} (h : Behind δ before s s') (name : String) :
    s'.awaits name = s.awaits name := by
  unfold State.awaits
  rw [h.scopes, h.distance?, show decide (s'.globals.find? name = some .declared) =
    decide (s.globals.find? name = some .declared) from decide_eq_decide.2 (h.waits name)]

theorem walksBehind_record (id : NodeId) (name : String) :
    WalksBehind δ before (fun s ↦ s.record id name) fun s ↦ s.record (id + δ.ids) name := by
  intro s s' h
  change Behind δ before (s.record id name) (s'.record (id + δ.ids) name)
  unfold State.record
  rw [h.distance?]
  split
  next distance _ =>
    refine { h with distances := ?_ }
    change Bindings.put _ _ s'.distances.entries = _ ++ (Bindings.put _ _ _).map _
    rw [h.distances, Bindings.put_append _ fun e he heq ↦ ?_]
    · exact congrArg _ (Bindings.put_map_add δ.ids id distance _)
    · exact absurd (h.lower e he) (heq ▸ Nat.not_lt.2 (Nat.le_add_left ..))
  next => exact h

theorem walksBehind_readVariable (id : NodeId) (name : Name) :
    WalksBehind δ before (readVariable id name)
      (readVariable (id + δ.ids) (name.shift δ)) := by
  intro s s' h
  refine walksBehind_record id name.text _ _ ?_
  change Behind δ before _ (s'.reportIf (s'.awaits name.text) (name.line + δ.lines) _)
  rw [h.awaits]
  exact h.reportIf _ _ _

mutual

theorem walksBehind_expr (context : Context) :
    (e : Expr) → WalksBehind δ before (expr context e) (expr context (e.shift δ))
  | .literal _ => fun _ _ h ↦ h
  | .grouping e | .unary _ _ e | .get e _ => walksBehind_expr context e
  | .binary _ _ l r | .logical _ _ l r =>
    (walksBehind_expr context l).comp (walksBehind_expr context r)
  | .var id name => walksBehind_readVariable id name
  | .assign id name e =>
    (walksBehind_expr context e).comp (walksBehind_record id name.text)
  | .call callee _ args =>
    (walksBehind_expr context callee).comp (walksBehind_exprs context args)
  | .set o _ e => (walksBehind_expr context e).comp (walksBehind_expr context o)
  | .this id line => by
    change WalksBehind δ before (thisAccess context id line)
      (thisAccess context (id + δ.ids) (line + δ.lines))
    obtain ⟨routine, owner⟩ := context
    cases owner with
    | none => exact walksBehind_report line _
    | class_ | subclass => exact walksBehind_record id "this"
  | .super id line _ => by
    change WalksBehind δ before (superAccess context id line)
      (superAccess context (id + δ.ids) (line + δ.lines))
    obtain ⟨routine, owner⟩ := context
    cases owner with
    | none | class_ => exact walksBehind_report line _
    | subclass => exact walksBehind_record id "super"

theorem walksBehind_exprs (context : Context) :
    (es : List Expr) → WalksBehind δ before (exprs context es) (exprs context (Expr.shiftAll δ es))
  | [] => fun _ _ h ↦ h
  | e :: es => (walksBehind_expr context e).comp (walksBehind_exprs context es)

end

theorem walksBehind_optionalExpr (context : Context) (e : Option Expr) :
    WalksBehind δ before (optionalExpr context e)
      (optionalExpr context (e.map (Expr.shift δ))) := by
  cases e with
  | none => exact fun _ _ h ↦ h
  | some e => exact walksBehind_expr context e

theorem walksBehind_declare_define (name : Name) :
    WalksBehind δ before (fun s ↦ (s.declare name).define name)
      fun s ↦ (s.declare (name.shift δ)).define (name.shift δ) :=
  (walksBehind_mark name.text .declared).comp (walksBehind_mark name.text .ready)

theorem walksBehind_parameters (names : List Name) :
    WalksBehind δ before (parameters names) (parameters (names.map (Name.shift δ))) := by
  induction names with
  | nil => exact fun _ _ h ↦ h
  | cons name names ih => exact (walksBehind_declare_define name).comp ih

theorem walksBehind_returnValue (context : Context) (line : Nat) (value : Option Expr) :
    WalksBehind δ before (returnValue context line value)
      (returnValue context (line + δ.lines) (value.map (Expr.shift δ))) := by
  cases value with
  | none => exact fun _ _ h ↦ h
  | some e => exact fun s s' h ↦ walksBehind_expr context e _ _ (h.reportIf _ _ _)

theorem walksBehind_enterSuperclass (name : Name) (superclass : Option Superclass) :
    WalksBehind δ before (enterSuperclass name superclass)
      (enterSuperclass (name.shift δ) (superclass.map (Superclass.shift δ))) := by
  cases superclass with
  | none => exact fun _ _ h ↦ h
  | some s =>
    exact fun st st' h ↦ walksBehind_mark "super" .ready _ _ (walksBehind_enter _ _
      (walksBehind_readVariable s.id s.name _ _ (h.reportIf _ _ _)))

theorem walksBehind_leaveSuperclass (superclass : Option Superclass) :
    WalksBehind δ before (leaveSuperclass superclass)
      (leaveSuperclass (superclass.map (Superclass.shift δ))) := by
  cases superclass with
  | none => exact fun _ _ h ↦ h
  | some s => exact walksBehind_leave

mutual

theorem walksBehind_stmt (context : Context) :
    (s : Stmt) → WalksBehind δ before (stmt context s) (stmt context (s.shift δ))
  | .expression e | .print e => walksBehind_expr context e
  | .var name initial =>
    (walksBehind_mark name.text .declared).comp
      ((walksBehind_optionalExpr context initial).comp (walksBehind_mark name.text .ready))
  | .block body =>
    walksBehind_enter.comp ((walksBehind_stmts context body).comp walksBehind_leave)
  | .ifThen test s | .loop test s =>
    (walksBehind_expr context test).comp (walksBehind_stmt context s)
  | .ifElse test s t =>
    (walksBehind_expr context test).comp
      ((walksBehind_stmt context s).comp (walksBehind_stmt context t))
  | .function ⟨name, names, body⟩ =>
    (walksBehind_declare_define name).comp
      (walksBehind_routine context.owner .function ⟨name, names, body⟩)
  | .return_ line value => fun s s' h ↦
    walksBehind_returnValue context line value _ _ (h.reportIf _ _ _)
  | .class_ name superclass methods => by
    intro s s' h
    have hopened := walksBehind_enterSuperclass name superclass _ _
      (walksBehind_declare_define name s s' h)
    have hwalked := walksBehind_routines (classContext superclass) methods _ _
      (walksBehind_mark "this" .ready _ _ (walksBehind_enter _ _ hopened))
    have hleft := walksBehind_leaveSuperclass superclass _ _ (walksBehind_leave _ _ hwalked)
    cases superclass <;> exact hleft

theorem walksBehind_stmts (context : Context) :
    (ss : List Stmt) → WalksBehind δ before (stmts context ss) (stmts context (Stmt.shiftAll δ ss))
  | [] => fun _ _ h ↦ h
  | s :: ss => (walksBehind_stmt context s).comp (walksBehind_stmts context ss)

theorem walksBehind_routine (owner : ClassContext) (kind : RoutineContext) :
    (r : Routine) → WalksBehind δ before (routine owner kind r) (routine owner kind (r.shift δ))
  | ⟨_, names, body⟩ =>
    walksBehind_enter.comp ((walksBehind_parameters names).comp
      ((walksBehind_stmts ⟨kind, owner⟩ body).comp walksBehind_leave))

theorem walksBehind_routines (owner : ClassContext) :
    (rs : List Routine) →
      WalksBehind δ before (routines owner rs) (routines owner (Routine.shiftAll δ rs))
  | [] => fun _ _ h ↦ h
  | ⟨name, names, body⟩ :: rs =>
    (walksBehind_routine owner (methodContext name) ⟨name, names, body⟩).comp
      (walksBehind_routines owner rs)

end

end

/-! ### Statements behind others -/

theorem stmts_append (context : Context) (ss ts : List Stmt) (s : State) :
    stmts context (ss ++ ts) s = stmts context ts (stmts context ss s) := by
  induction ss generalizing s with
  | nil => rfl
  | cons t ss ih => exact ih _

/-- Resolution of statements behind others that it has nothing to report of. -/
theorem ofStatements_append {ss : List Stmt} (hread : WellRead [] (.stmts ss))
    (hids : (Stmt.idsAll ss).Nodup) (hclean : (ofStatements ss).diagnostics = []) (δ : Shift)
    (hlower : ∀ id ∈ Stmt.idsAll ss, id < δ.ids) (ts : List Stmt) :
    (ofStatements (ss ++ Stmt.shiftAll δ ts)).distances.entries =
        (ofStatements ss).distances.entries ++ ((ofStatements ts).distances.later δ.ids).entries ∧
      (ofStatements (ss ++ Stmt.shiftAll δ ts)).diagnostics =
        (ofStatements ts).diagnostics.map (Diagnostic.later δ.lines) := by
  have hcontext : Context.Fits ⟨.none, .none⟩ [] :=
    ⟨rfl, fun h ↦ absurd rfl h, fun _ _ _ _ _ h ↦ nomatch h⟩
  have hwalk := walks_stmts hcontext (fun s hs ↦ nomatch hs) ss hread hids
  have hbehind : Behind δ (ofStatements ss).distances .initial
      (stmts ⟨.none, .none⟩ ss .initial) := by
    refine ⟨fun e he ↦ ?_, ?_, fun x ↦ ⟨readies_stmts _ ss _ x, nofun⟩, ?_, hclean⟩
    · refine Nat.lt_of_not_le fun hle ↦ ?_
      have hnone : (ofStatements ss).distances.find? e.1 = none :=
        hwalk.kept .initial e.1 fun hid ↦ absurd (hlower e.1 hid) (Nat.not_lt.2 hle)
      exact Bindings.ne_of_find?_none hnone e he rfl
    · have hshows := hwalk.shows _ State.shows_initial
      have hnothing : Setting.after ss [] = [] := by
        clear * -
        induction ss with
        | nil => rfl
        | cons s ss ih => exact ih
      rw [hnothing] at hshows
      exact List.map_eq_nil_iff.1 hshows
    · exact (List.append_nil _).symm
  have hafter := walksBehind_stmts ⟨.none, .none⟩ ts _ _ hbehind
  rw [← stmts_append] at hafter
  exact ⟨hafter.distances, hafter.diagnostics⟩

end Resolution

end Lox
