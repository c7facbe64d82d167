import Lox.Program
import Lox.Proofs.Run.Endings

/-!
Runs side by side. A family of actions sets out from one machine, and an alignment is a relation
of their outcomes that equal outcomes have, and that actions in a row and frames released at the
end do not break. If the evaluators of the parts are aligned on all their moments, so are the
wholes (`Alignment.evaluate`, `Alignment.execute`): the constructs of the language are gone
through once, for whatever there is to be compared. Only the rounds of a loop take fuel of their
own.
-/

set_option autoImplicit false

namespace Lox

variable {ι : Type} {α β : Type}

/-- A relation of the outcomes of a family of actions that begin at one machine. -/
structure Alignment (ι : Type) where
  Holds : {α : Type} → (ι → Outcome α) → Prop
  same : ∀ {α : Type} (o : Outcome α), Holds fun _ ↦ o
  bind : ∀ {α β : Type} {xs : ι → Action α} {fs : ι → α → Action β} {m : Machine},
    (Holds fun i ↦ xs i m) → (∀ a m', Holds fun i ↦ fs i a m') → Holds fun i ↦ (xs i >>= fs i) m
  releasing : ∀ {α : Type} {xs : ι → Action α} {m : Machine} (frame : FrameId),
    (Holds fun i ↦ xs i m) → Holds fun i ↦ Action.releasing frame (xs i) m

namespace Alignment

variable {L : Alignment ι}

/-- The outcomes are aligned, whatever machine the actions begin at. -/
def Actions (L : Alignment ι) (xs : ι → Action α) : Prop := ∀ m, L.Holds fun i ↦ xs i m

/-- The evaluators are aligned on every node, in every frame and on every machine. -/
structure Evaluators (L : Alignment ι) (subs : ι → Evaluator) : Prop where
  evaluate : ∀ e env, L.Actions fun i ↦ (subs i).evaluate e env
  execute : ∀ s env, L.Actions fun i ↦ (subs i).execute s env

theorem actions_same (x : Action α) : L.Actions fun _ ↦ x := fun m ↦ L.same (x m)

theorem actions_bind {xs : ι → Action α} {fs : ι → α → Action β} (h : L.Actions xs)
    (hf : ∀ a, L.Actions fun i ↦ fs i a) : L.Actions fun i ↦ xs i >>= fs i :=
  fun m ↦ L.bind (h m) hf

theorem actions_releasing {xs : ι → Action α} (frame : FrameId) (h : L.Actions xs) :
    L.Actions fun i ↦ Action.releasing frame (xs i) :=
  fun m ↦ L.releasing frame (h m)

open Evaluation

variable {subs : ι → Evaluator}

/-! ### Calls -/

theorem evaluateAll (h : L.Evaluators subs) (env : FrameId) (es : List Expr) :
    L.Actions fun i ↦ Evaluation.evaluateAll (subs i) env es := by
  induction es with
  | nil => exact actions_same _
  | cons e es ih =>
    exact actions_bind (h.evaluate e env) fun v ↦ actions_bind ih fun vs ↦ actions_same _

theorem executeAll (h : L.Evaluators subs) (env : FrameId) (ss : List Stmt) :
    L.Actions fun i ↦ Evaluation.executeAll (subs i) env ss := by
  induction ss with
  | nil => exact actions_same _
  | cons s ss ih =>
    refine actions_bind (h.execute s env) fun flow ↦ ?_
    cases flow with
    | normal => exact ih
    | returned v => exact actions_same _

theorem callFunction (h : L.Evaluators subs) (f : Function) (args : List Value) :
    L.Actions fun i ↦ Evaluation.callFunction (subs i) f args := by
  refine actions_bind (actions_same _) fun frame ↦ actions_bind ?_ fun flow ↦ actions_same _
  exact actions_releasing frame (actions_bind (actions_same _) fun _ ↦ executeAll h frame _)

theorem invoke (h : L.Evaluators subs) (f : Function) (o : Object) (args : List Value) :
    L.Actions fun i ↦ Evaluation.invoke (subs i) f o args :=
  actions_bind (actions_same _) fun bound ↦ actions_releasing _ (callFunction h bound args)

theorem instantiate (h : L.Evaluators subs) (c : Class) (args : List Value) :
    L.Actions fun i ↦ Evaluation.instantiate (subs i) c args := by
  refine actions_bind (actions_same _) fun o ↦ ?_
  cases c.method? initializerName with
  | none => exact actions_same _
  | some f => exact actions_bind (invoke h f o args) fun _ ↦ actions_same _

theorem callValue (h : L.Evaluators subs) (v : Value) (line : Nat) (args : List Value) :
    L.Actions fun i ↦ Evaluation.callValue (subs i) v line args := by
  cases v with
  | function id f => exact callFunction h f args
  | class_ c => exact instantiate h c args
  | _ => exact actions_same _

theorem callTarget (h : L.Evaluators subs) (t : Target) (line : Nat) (args : List Value) :
    L.Actions fun i ↦ Evaluation.callTarget (subs i) t line args := by
  cases t with
  | method f o => exact actions_bind (actions_same _) fun _ ↦ invoke h f o args
  | value v =>
    simp only [Evaluation.callTarget]
    cases v.arity? with
    | none => exact actions_same _
    | some arity => exact actions_bind (actions_same _) fun _ ↦ callValue h v line args

theorem target (h : L.Evaluators subs) (callee : Expr) (env : FrameId) :
    L.Actions fun i ↦ Evaluation.target (subs i) callee env := by
  cases callee with
  | get object name => exact actions_bind (h.evaluate object env) fun v ↦ actions_same _
  | super id line method => exact actions_same _
  | _ => exact actions_bind (h.evaluate _ env) fun v ↦ actions_same _

/-! ### Nodes -/

theorem optional (h : L.Evaluators subs) (env : FrameId) (e? : Option Expr) :
    L.Actions fun i ↦ Evaluation.optional (subs i) env e? := by
  cases e? with
  | none => exact actions_same _
  | some e => exact h.evaluate e env

/-- Loops with equally many rounds. -/
theorem rounds {tests : ι → Action Value} {bodies : ι → Action Flow} (htests : L.Actions tests)
    (hbodies : L.Actions bodies) (fuel : Nat) :
    L.Actions fun i ↦ Evaluation.rounds (tests i) (bodies i) fuel := by
  induction fuel with
  | zero => exact actions_same _
  | succ fuel ih =>
    simp only [rounds_succ]
    refine actions_bind htests fun v ↦ ?_
    split
    · refine actions_bind hbodies fun flow ↦ ?_
      cases flow with
      | normal => exact ih
      | returned v => exact actions_same _
    · exact actions_same _

theorem evaluate (h : L.Evaluators subs) (e : Expr) (env : FrameId) :
    L.Actions fun i ↦ Evaluation.evaluate (subs i) e env := by
  cases e with
  | grouping inner => exact h.evaluate inner env
  | unary op line operand => exact actions_bind (h.evaluate operand env) fun v ↦ actions_same _
  | binary op line left right =>
    exact actions_bind (h.evaluate left env) fun v ↦
      actions_bind (h.evaluate right env) fun w ↦ actions_same _
  | logical op line left right =>
    refine actions_bind (h.evaluate left env) fun v ↦ ?_
    split
    · exact actions_same _
    · exact h.evaluate right env
  | assign id name value => exact actions_bind (h.evaluate value env) fun v ↦ actions_same _
  | call callee line args =>
    exact actions_bind (target h callee env) fun t ↦
      actions_bind (evaluateAll h env args) fun vs ↦ callTarget h t line vs
  | get object name => exact actions_bind (h.evaluate object env) fun v ↦ actions_same _
  | set object name value =>
    refine actions_bind (h.evaluate object env) fun receiver ↦ ?_
    cases receiver with
    | object o => exact actions_bind (h.evaluate value env) fun v ↦ actions_same _
    | _ => exact actions_same _
  | _ => exact actions_same _

/-- Loops apart, which may have come with different fuel. -/
theorem execute (h : L.Evaluators subs) (fuels : ι → Nat) (s : Stmt) (env : FrameId)
    (hloop : ∀ test body, s = .loop test body → L.Actions fun i ↦
      Evaluation.rounds ((subs i).evaluate test env) ((subs i).execute body env) (fuels i)) :
    L.Actions fun i ↦ Evaluation.execute (fuels i) (subs i) s env := by
  cases s with
  | expression value => exact actions_bind (h.evaluate value env) fun v ↦ actions_same _
  | print value => exact actions_bind (h.evaluate value env) fun v ↦ actions_same _
  | var name initial => exact actions_bind (optional h env initial) fun v ↦ actions_same _
  | block body =>
    exact actions_bind (actions_same _) fun scope ↦
      actions_releasing scope (executeAll h scope body)
  | ifThen test consequent =>
    refine actions_bind (h.evaluate test env) fun v ↦ ?_
    split
    · exact h.execute consequent env
    · exact actions_same _
  | ifElse test consequent alternative =>
    refine actions_bind (h.evaluate test env) fun v ↦ ?_
    split
    · exact h.execute consequent env
    · exact h.execute alternative env
  | loop test body => exact hloop test body rfl
  | function r => exact actions_same _
  | return_ line value => exact actions_bind (optional h env value) fun v ↦ actions_same _
  | class_ name superclass methods => exact actions_same _

theorem runStatements (h : L.Evaluators subs) (ss : List Stmt) :
    L.Actions fun i ↦ Program.runStatements (subs i) ss := by
  induction ss with
  | nil => exact actions_same _
  | cons s ss ih =>
    refine actions_bind (h.execute s _) fun flow ↦ ?_
    cases flow with
    | normal => exact ih
    | returned v => exact actions_same _

end Alignment

end Lox
