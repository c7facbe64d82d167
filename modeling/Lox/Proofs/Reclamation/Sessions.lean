import Lox.Proofs.Reclamation.Moments
import Lox.Session

/-!
Programs run one after another on one machine, with whatever distances are installed for them,
and on a machine that retains every frame. Nothing that can be observed tells the two apart: not
what is printed, nor how any statement ends, nor whether a run ends at all. Only the numbers of
slots in the messages of internal faults may differ. A sink with room for so many bytes shows
what a run has printed that does not end, too.
-/

set_option autoImplicit false

namespace Lox

open Referring Machine

variable {ρ : FrameId → FrameId} {m m' : Machine} {α β : Type} {A B : Option Failure → Prop}

/-- The same machine, with an arena that frees no slot. -/
def Machine.retaining (m : Machine) : Machine := { m with arena := m.arena.retaining }

/-- Data with every slot number in it set to zero. -/
def Referring.unslotted [Referring α] (a : α) : α := rename (fun _ ↦ Arena.globals) a

theorem Machine.Holds.unslotted [Referring α] {a a' : α} (h : Holds ρ m a a') :
    unslotted a = unslotted a' := by
  rw [h.renamed]
  exact (rename_rename ρ (fun _ ↦ Arena.globals) a).symm

/-- A result with every slot number in it set to zero. -/
def unslottedResult [Referring α] : Except Failure α → Except Failure α
  | .error cause => .error cause.unslotted
  | .ok a => .ok (unslotted a)

namespace Session

/-! ### What is observed -/

/-- A program to be run, with the distances that are installed for it. Step by step it is asked
of each statement how it ends; otherwise, of the whole. -/
structure Task where
  statements : List Stmt
  distances : Distances
  stepwise : Bool

def runTasks (sub : Evaluator) : List Task → Action (List Report)
  | [] => pure []
  | t :: ts => do
    let report ← performInstalled sub (if t.stepwise then .execute else .interpret) t.statements
      t.distances
    return report :: (← runTasks sub ts)

def CallReport.unslotted : CallReport → CallReport
  | .skipped => .skipped
  | .called arity result => .called arity (unslottedResult result)
  | .notCallable result => .notCallable (unslottedResult result)

def Report.unslotted : Report → Report
  | .rejected diagnostics => .rejected diagnostics
  | .interpreted result => .interpreted (unslottedResult result)
  | .executed results => .executed (results.map unslottedResult)
  | .evaluated results => .evaluated (results.map fun result ↦ result.map unslottedResult)
  | .called results => .called (results.map CallReport.unslotted)

/-- All that shows of a session, but for slot numbers: nothing if it does not end. -/
def observed : Outcome (List Report) → Option (Except Failure (List Report) × ByteArray)
  | .outOfFuel => none
  | .failed cause m => some (.error cause.unslotted, m.sink.written)
  | .done reports m => some (.ok (reports.map Report.unslotted), m.sink.written)

/-! ### Reports from similar machines -/

/-- Two outcomes that look the same, with machines that can go on as similar ones. -/
def Tells (look : α → β) : Outcome α → Outcome α → Prop
  | .outOfFuel, .outOfFuel => True
  | .done a m, .done a' m' => look a = look a' ∧ ∃ ρ, Similar ρ m m'
  | _, _ => False

theorem tells_pure {look : α → β} {a a' : α} (h : Similar ρ m m') (ha : look a = look a') :
    Tells look ((pure a : Action α) m) ((pure a' : Action α) m') :=
  ⟨ha, ρ, h⟩

theorem tells_bind {α' β' : Type} {look : α → β} {look' : α' → β'} {x x' : Action α}
    {f f' : α → Action α'} (hx : Tells look (x m) (x' m'))
    (hf : ∀ ρ₁ m₁ m₁' a a', Similar ρ₁ m₁ m₁' → look a = look a' →
      Tells look' (f a m₁) (f' a' m₁')) : Tells look' ((x >>= f) m) ((x' >>= f') m') := by
  rw [Action.bind_apply, Action.bind_apply]
  cases ho : x m with
  | outOfFuel =>
    rw [ho] at hx
    cases ho' : x' m' with
    | outOfFuel => trivial
    | _ => rw [ho'] at hx; exact hx.elim
  | failed cause m₁ =>
    rw [ho] at hx
    cases ho' : x' m' <;> rw [ho'] at hx <;> exact hx.elim
  | done a m₁ =>
    rw [ho] at hx
    cases ho' : x' m' with
    | done a' m₁' =>
      rw [ho'] at hx
      obtain ⟨ha, ρ₁, hsim⟩ := hx
      exact hf ρ₁ m₁ m₁' a a' hsim ha
    | _ => rw [ho'] at hx; exact hx.elim

/-- Nothing is left out: neither of two outcomes is allowed to stop in a way of its own. -/
def never : Option Failure → Prop := fun _ ↦ False

theorem tells_attempt [Referring α] {x x' : Action α}
    (h : (x m).Follows never never ρ m (x' m')) :
    Tells unslottedResult (x.attempt m) (x'.attempt m') := by
  unfold Action.attempt
  generalize x m = o at h
  generalize x' m' = o' at h
  cases h with
  | outOfFuel => trivial
  | failed hcause hlead hsim => exact ⟨congrArg Except.error hcause, _, hsim⟩
  | done hlead hsim ha => exact ⟨congrArg Except.ok ha.unslotted, _, hsim⟩
  | left hstop hallowed => exact hallowed.elim
  | right hstop hallowed => exact hallowed.elim

theorem Similar.install (h : Similar ρ m m') (distances : Distances) :
    Similar ρ (m.install distances) (m'.install distances) :=
  { h with
    tidy := { h.tidy with }
    distances := congrArg (fun d ↦ d.merge distances) h.distances }

variable {sub sub' : Evaluator}

theorem follows_runStatements (hsub : sub.Follows A B sub') (h : Similar ρ m m') (ss : List Stmt) :
    (Program.runStatements sub ss m).Follows A B ρ m (Program.runStatements sub' ss m') := by
  induction ss generalizing ρ m m' with
  | nil => exact Action.follows_pure h ⟨trivial, rfl⟩
  | cons s ss ih =>
    refine Action.follows_bind (hsub.execute s h h.points_globals)
      fun ρ₁ m₁ m₁' flow flow' _ hsim hflow ↦ ?_
    obtain ⟨-, rfl⟩ := hflow
    cases flow with
    | normal => exact ih hsim
    | returned v =>
      refine Action.follows_fail hsim
        (congrArg (fun text ↦ Failure.internal (.escapedReturn text)) ?_)
      exact (Value.text_rename ρ₁ v).symm

theorem tells_executeEach (hsub : sub.Follows never never sub') (h : Similar ρ m m')
    (ss : List Stmt) :
    Tells (List.map unslottedResult) (executeEach sub ss m) (executeEach sub' ss m') := by
  induction ss generalizing ρ m m' with
  | nil => exact tells_pure h rfl
  | cons s ss ih =>
    refine tells_bind (tells_attempt (hsub.execute s h h.points_globals))
      fun ρ₁ m₁ m₁' result result' hsim hresult ↦ ?_
    cases result with
    | error cause =>
      cases result' with
      | error cause' => exact tells_pure hsim (congrArg (fun r ↦ [r]) hresult)
      | ok flow' => cases hresult
    | ok flow =>
      cases result' with
      | error cause' => cases hresult
      | ok flow' =>
        refine tells_bind (ih hsim) fun ρ₂ m₂ m₂' rest rest' hsim₂ hrest ↦ ?_
        exact tells_pure hsim₂ (by rw [List.map_cons, List.map_cons, hresult, hrest])

theorem tells_perform (hsub : sub.Follows never never sub') (h : Similar ρ m m')
    (stepwise : Bool) (ss : List Stmt) (distances : Distances) :
    Tells Report.unslotted
      (performInstalled sub (if stepwise then .execute else .interpret) ss distances m)
      (performInstalled sub' (if stepwise then .execute else .interpret) ss distances m') := by
  have hinstalled := Similar.install h distances
  cases stepwise with
  | true =>
    exact tells_bind (tells_executeEach hsub hinstalled ss)
      fun ρ₁ m₁ m₁' results results' hsim hr ↦ tells_pure hsim (congrArg Report.executed hr)
  | false =>
    exact tells_bind (tells_attempt (follows_runStatements hsub hinstalled ss))
      fun ρ₁ m₁ m₁' result result' hsim hr ↦ tells_pure hsim (congrArg Report.interpreted hr)

theorem tells_runTasks (hsub : sub.Follows never never sub') (h : Similar ρ m m')
    (tasks : List Task) :
    Tells (List.map Report.unslotted) (runTasks sub tasks m) (runTasks sub' tasks m') := by
  induction tasks generalizing ρ m m' with
  | nil => exact tells_pure h rfl
  | cons t ts ih =>
    refine tells_bind (tells_perform hsub h t.stepwise t.statements t.distances)
      fun ρ₁ m₁ m₁' report report' hsim hreport ↦ ?_
    refine tells_bind (ih hsim) fun ρ₂ m₂ m₂' rest rest' hsim₂ hrest ↦ ?_
    exact tells_pure hsim₂ (by rw [List.map_cons, List.map_cons, hreport, hrest])

theorem observed_eq_of_tells {o o' : Outcome (List Report)}
    (h : Tells (List.map Report.unslotted) o o') : observed o = observed o' := by
  cases o with
  | outOfFuel =>
    cases o' with
    | outOfFuel => rfl
    | _ => exact h.elim
  | failed cause m => cases o' <;> exact h.elim
  | done reports m =>
    cases o' with
    | done reports' m' =>
      obtain ⟨hreports, ρ, hsim⟩ := h
      simp only [observed, hreports, hsim.sink]
    | _ => exact h.elim

end Session

/-! ### The whole session -/

theorem tidy_initial (sink : Sink) (clock : Clock) : (Machine.initial sink clock).Tidy where
  sound := Arena.sound_ofGlobals _
  releases := rfl
  noted := rfl
  frames k f hk := by
    change (Arena.ofGlobals Native.bindings).frame? k = some f at hk
    rw [Arena.frame?_ofGlobals] at hk
    split at hk
    · cases hk
      refine Bindings.all_ofList fun e he ↦ ?_
      obtain ⟨native, -, rfl⟩ := List.mem_map.1 he
      exact trivial
    · cases hk
  fields table htable := absurd htable (Array.not_mem_empty table)

/-- Releasing frames shows nowhere: a session looks the same on a machine that retains them all.
And it is secure: if at any moment of it a frame were missing that something refers to, or one
went that is still to be used, a watch for that would show its alarm. -/
theorem Session.observed_retaining (fuel : Nat) (tasks : List Session.Task) (sink : Sink)
    (clock : Clock) :
    Session.observed (Session.runTasks (evaluator fuel) tasks (.initial sink clock)) =
        Session.observed
          (Session.runTasks (evaluator fuel) tasks (Machine.initial sink clock).retaining) ∧
      ∀ alarm, Session.observed
          (Session.runTasks (watched Secure alarm fuel) tasks (.initial sink clock)) =
        Session.observed (Session.runTasks (evaluator fuel) tasks (.initial sink clock)) := by
  have hsim := (tidy_initial sink clock).similar
  have hsame := Session.observed_eq_of_tells
    (Session.tells_runTasks (follows_evaluator fuel) hsim tasks)
  refine ⟨hsame, fun alarm ↦ Eq.trans ?_ hsame.symm⟩
  have hwatched : (watched Secure alarm fuel).Follows Session.never Session.never
      (watched (fun _ _ _ ↦ True) alarm fuel) :=
    watched_follows secure_follows alarm (fun _ _ _ hfails ↦ absurd trivial hfails) fuel
  rw [watched_true] at hwatched
  exact Session.observed_eq_of_tells (Session.tells_runTasks hwatched hsim tasks)

end Lox
