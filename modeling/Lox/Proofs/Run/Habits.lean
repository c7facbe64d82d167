import Lox.Program
import Lox.Proofs.Run.Endings
import Lox.Proofs.Run.Pairing

/-!
Properties that every action of a run has. A habit is a property of actions which those of the
machine have, and which putting actions together keeps. The constructs of the language are gone
through once: if the evaluators of the parts have a habit, so do the wholes (`Habit.evaluate`,
`Habit.execute`), and so do all runs, whatever the fuel (`Habit.runStatements`).
-/

set_option autoImplicit false

namespace Lox

variable {α β : Type}

/-- A property of actions on the machine, kept where actions are put together. -/
structure Habit where
  Holds : {α : Type} → Action α → Prop
  outOfFuel : ∀ {α : Type}, Holds (Action.outOfFuel : Action α)
  fail : ∀ {α : Type} (cause : Failure), Holds (Action.fail cause : Action α)
  pure : ∀ {α : Type} (a : α), Holds (Pure.pure a : Action α)
  bind : ∀ {α β : Type} {x : Action α} {f : α → Action β},
    Holds x → (∀ a, Holds (f a)) → Holds (x >>= f)
  releasing : ∀ {α : Type} (frame : FrameId) {x : Action α},
    Holds x → Holds (Action.releasing frame x)
  push : ∀ origin enclosing, Holds (Action.push origin enclosing)
  capture : ∀ frame, Holds (Action.capture frame)
  define : ∀ frame name value, Holds (Action.define frame name value)
  getAt : ∀ frame distance name, Holds (Action.getAt frame distance name)
  assignAt : ∀ frame distance name value, Holds (Action.assignAt frame distance name value)
  get : ∀ frame name line, Holds (Action.get frame name line)
  assign : ∀ frame name value line, Holds (Action.assign frame name value line)
  distance? : ∀ id, Holds (Action.distance? id)
  fresh : Holds Action.fresh
  newObject : ∀ c, Holds (Action.newObject c)
  field? : ∀ o name, Holds (Action.field? o name)
  setField : ∀ o name value, Holds (Action.setField o name value)
  now : Holds Action.now
  write : ∀ text, Holds (Action.write text)

namespace Habit

variable (H : Habit)

/-- The evaluator of the parts has the habit. -/
structure Evaluators (sub : Evaluator) : Prop where
  evaluate : ∀ e env, H.Holds (sub.evaluate e env)
  execute : ∀ s env, H.Holds (sub.execute s env)

variable {H} {sub : Evaluator}

/-! ### Names and properties -/

theorem lookUp (id : NodeId) (name : String) (line : Nat) (env : FrameId) :
    H.Holds (Evaluation.lookUp id name line env) := by
  refine H.bind (H.distance? id) fun distance ↦ ?_
  cases distance with
  | none => exact H.get _ _ _
  | some d => exact H.getAt _ _ _

theorem store (id : NodeId) (name : Name) (value : Value) (env : FrameId) :
    H.Holds (Evaluation.store id name value env) := by
  refine H.bind (H.distance? id) fun distance ↦ ?_
  cases distance with
  | none => exact H.assign _ _ _ _
  | some d => exact H.assignAt _ _ _ _

theorem bindMethod (f : Function) (o : Object) : H.Holds (Evaluation.bindMethod f o) :=
  H.bind (H.push _ _) fun _ ↦ H.bind (H.define _ _ _) fun _ ↦ H.pure _

theorem toValue (t : Target) : H.Holds (Evaluation.Target.toValue t) := by
  cases t with
  | value v => exact H.pure v
  | method f o =>
    exact H.bind (bindMethod f o) fun bound ↦
      H.bind (H.capture _) fun _ ↦ H.bind H.fresh fun id ↦ H.pure _

theorem property (v : Value) (name : Name) : H.Holds (Evaluation.property v name) := by
  unfold Evaluation.property
  cases v with
  | object o =>
    refine H.bind (H.field? o name.text) fun found ↦ ?_
    cases found with
    | some value => exact H.pure _
    | none =>
      cases o.class_.method? name.text with
      | some f => exact H.pure _
      | none => exact H.fail _
  | _ => exact H.fail _

theorem superMethod (id : NodeId) (method : Name) (env : FrameId) :
    H.Holds (Evaluation.superMethod id method env) := by
  refine H.bind (H.distance? id) fun distance ↦ ?_
  cases distance with
  | none => exact H.fail _
  | some d =>
    refine H.bind (H.getAt _ _ _) fun v ↦ ?_
    cases v with
    | class_ c =>
      cases d with
      | zero => exact H.fail _
      | succ inner =>
        refine H.bind (H.getAt _ _ _) fun receiver ↦ ?_
        cases receiver with
        | object o =>
          dsimp only
          cases c.method? method.text with
          | some f => exact H.pure _
          | none => exact H.fail _
        | _ => exact H.fail _
    | _ => exact H.fail _

/-! ### Calls -/

theorem evaluateAll (h : H.Evaluators sub) (env : FrameId) (es : List Expr) :
    H.Holds (Evaluation.evaluateAll sub env es) := by
  induction es with
  | nil => exact H.pure _
  | cons e es ih => exact H.bind (h.evaluate e env) fun v ↦ H.bind ih fun vs ↦ H.pure _

theorem executeAll (h : H.Evaluators sub) (env : FrameId) (ss : List Stmt) :
    H.Holds (Evaluation.executeAll sub env ss) := by
  induction ss with
  | nil => exact H.pure _
  | cons s ss ih =>
    refine H.bind (h.execute s env) fun flow ↦ ?_
    cases flow with
    | normal => exact ih
    | returned v => exact H.pure _

theorem defineParameters (env : FrameId) (names : List Name) (values : List Value) :
    H.Holds (Evaluation.defineParameters env names values) := by
  induction names generalizing values with
  | nil => exact H.pure _
  | cons name names ih =>
    cases values with
    | nil => exact H.pure _
    | cons value values => exact H.bind (H.define _ _ _) fun _ ↦ ih values

theorem callFunction (h : H.Evaluators sub) (f : Function) (args : List Value) :
    H.Holds (Evaluation.callFunction sub f args) := by
  refine H.bind (H.push _ _) fun env ↦ H.bind ?_ fun flow ↦ ?_
  · exact H.releasing env (H.bind (defineParameters env _ args) fun _ ↦ executeAll h env _)
  · cases f.isInitializer with
    | true => exact H.getAt _ _ _
    | false => exact H.pure _

theorem invoke (h : H.Evaluators sub) (f : Function) (o : Object) (args : List Value) :
    H.Holds (Evaluation.invoke sub f o args) :=
  H.bind (bindMethod f o) fun bound ↦ H.releasing _ (callFunction h bound args)

theorem instantiate (h : H.Evaluators sub) (c : Class) (args : List Value) :
    H.Holds (Evaluation.instantiate sub c args) := by
  refine H.bind (H.newObject c) fun o ↦ ?_
  cases c.method? initializerName with
  | none => exact H.pure _
  | some f => exact H.bind (invoke h f o args) fun _ ↦ H.pure _

theorem callValue (h : H.Evaluators sub) (v : Value) (line : Nat) (args : List Value) :
    H.Holds (Evaluation.callValue sub v line args) := by
  cases v with
  | native f =>
    rcases Evaluation.callValue_native sub f line args with heq | ⟨w, heq, -⟩ | ⟨cause, heq⟩
    · rw [heq]
      exact H.bind H.now fun time ↦ H.pure _
    · rw [heq]
      exact H.pure _
    · rw [heq]
      exact H.fail _
  | function id f => exact callFunction h f args
  | class_ c => exact instantiate h c args
  | _ => exact H.fail _

theorem checkArity (line expected given : Nat) :
    H.Holds (Evaluation.checkArity line expected given) := by
  unfold Evaluation.checkArity
  split
  · exact H.pure _
  · exact H.fail _

theorem callTarget (h : H.Evaluators sub) (t : Target) (line : Nat) (args : List Value) :
    H.Holds (Evaluation.callTarget sub t line args) := by
  cases t with
  | method f o => exact H.bind (checkArity _ _ _) fun _ ↦ invoke h f o args
  | value v =>
    simp only [Evaluation.callTarget]
    cases v.arity? with
    | none => exact H.fail _
    | some arity => exact H.bind (checkArity _ _ _) fun _ ↦ callValue h v line args

theorem target (h : H.Evaluators sub) (callee : Expr) (env : FrameId) :
    H.Holds (Evaluation.target sub callee env) := by
  cases callee with
  | get object name => exact H.bind (h.evaluate object env) fun v ↦ property v name
  | super id line method => exact superMethod id method env
  | _ => exact H.bind (h.evaluate _ env) fun v ↦ H.pure _

/-! ### Nodes -/

theorem unary (op : UnaryOp) (line : Nat) (v : Value) : H.Holds (Evaluation.unary op line v) := by
  unfold Evaluation.unary
  split
  · exact H.pure _
  · exact H.pure _
  · exact H.fail _

theorem binary (op : BinaryOp) (line : Nat) (v w : Value) :
    H.Holds (Evaluation.binary op line v w) := by
  rw [Evaluation.binary_eq]
  cases Evaluation.operate op v w with
  | ok x => exact H.pure x
  | error cause => exact H.fail _

theorem evaluate (h : H.Evaluators sub) (e : Expr) (env : FrameId) :
    H.Holds (Evaluation.evaluate sub e env) := by
  cases e with
  | literal value => exact H.pure _
  | grouping inner => exact h.evaluate inner env
  | unary op line operand => exact H.bind (h.evaluate operand env) fun v ↦ unary op line v
  | binary op line left right =>
    exact H.bind (h.evaluate left env) fun v ↦
      H.bind (h.evaluate right env) fun w ↦ binary op line v w
  | logical op line left right =>
    refine H.bind (h.evaluate left env) fun v ↦ ?_
    split
    · exact H.pure _
    · exact h.evaluate right env
  | var id name => exact lookUp _ _ _ _
  | assign id name value =>
    exact H.bind (h.evaluate value env) fun v ↦ H.bind (store id name v env) fun _ ↦ H.pure _
  | call callee line args =>
    exact H.bind (target h callee env) fun t ↦
      H.bind (evaluateAll h env args) fun vs ↦ callTarget h t line vs
  | get object name =>
    exact H.bind (h.evaluate object env) fun v ↦ H.bind (property v name) fun t ↦ toValue t
  | set object name value =>
    refine H.bind (h.evaluate object env) fun receiver ↦ ?_
    cases receiver with
    | object o =>
      exact H.bind (h.evaluate value env) fun v ↦ H.bind (H.setField _ _ _) fun _ ↦ H.pure _
    | _ => exact H.fail _
  | this id line => exact lookUp _ _ _ _
  | super id line method => exact H.bind (superMethod id method env) fun t ↦ toValue t

theorem optional (h : H.Evaluators sub) (env : FrameId) (e? : Option Expr) :
    H.Holds (Evaluation.optional sub env e?) := by
  cases e? with
  | none => exact H.pure _
  | some e => exact h.evaluate e env

theorem rounds {test : Action Value} {body : Action Flow} (htest : H.Holds test)
    (hbody : H.Holds body) (fuel : Nat) : H.Holds (Evaluation.rounds test body fuel) := by
  induction fuel with
  | zero => exact H.outOfFuel
  | succ fuel ih =>
    rw [Evaluation.rounds_succ]
    refine H.bind htest fun v ↦ ?_
    split
    · refine H.bind hbody fun flow ↦ ?_
      cases flow with
      | normal => exact ih
      | returned v => exact H.pure _
    · exact H.pure _

theorem declareFunction (r : Routine) (env : FrameId) :
    H.Holds (Evaluation.declareFunction r env) :=
  H.bind (H.capture env) fun _ ↦ H.bind H.fresh fun _ ↦ H.define _ _ _

theorem superclassValue (env : FrameId) (superclass : Option Superclass) :
    H.Holds (Evaluation.superclassValue env superclass) := by
  cases superclass with
  | none => exact H.pure _
  | some s =>
    refine H.bind (lookUp _ _ _ _) fun v ↦ ?_
    cases v with
    | class_ c => exact H.pure _
    | _ => exact H.fail _

theorem methodFrame (name : Name) (methods : List Routine) (env : FrameId)
    (parent : Option Class) : H.Holds (Evaluation.methodFrame name methods env parent) := by
  cases parent with
  | none => exact H.pure _
  | some c => exact H.bind (H.push _ _) fun scope ↦ H.bind (H.define _ _ _) fun _ ↦ H.pure _

theorem declareClass (name : Name) (superclass : Option Superclass) (methods : List Routine)
    (env : FrameId) : H.Holds (Evaluation.declareClass name superclass methods env) :=
  H.bind (superclassValue env superclass) fun parent ↦ H.bind (H.define _ _ _) fun _ ↦
    H.bind (methodFrame name methods env parent) fun frame ↦ H.bind (H.capture frame) fun _ ↦
      H.bind H.fresh fun _ ↦ H.assign _ _ _ _

theorem execute (h : H.Evaluators sub) (fuel : Nat) (s : Stmt) (env : FrameId) :
    H.Holds (Evaluation.execute fuel sub s env) := by
  cases s with
  | expression value => exact H.bind (h.evaluate value env) fun v ↦ H.pure _
  | print value =>
    exact H.bind (h.evaluate value env) fun v ↦ H.bind (H.write _) fun _ ↦ H.pure _
  | var name initial =>
    exact H.bind (optional h env initial) fun v ↦ H.bind (H.define _ _ _) fun _ ↦ H.pure _
  | block body =>
    exact H.bind (H.push _ _) fun scope ↦ H.releasing scope (executeAll h scope body)
  | ifThen test consequent =>
    refine H.bind (h.evaluate test env) fun v ↦ ?_
    split
    · exact h.execute consequent env
    · exact H.pure _
  | ifElse test consequent alternative =>
    refine H.bind (h.evaluate test env) fun v ↦ ?_
    split
    · exact h.execute consequent env
    · exact h.execute alternative env
  | loop test body => exact rounds (h.evaluate test env) (h.execute body env) fuel
  | function r => exact H.bind (declareFunction r env) fun _ ↦ H.pure _
  | return_ line value => exact H.bind (optional h env value) fun v ↦ H.pure _
  | class_ name superclass methods =>
    exact H.bind (declareClass name superclass methods env) fun _ ↦ H.pure _

theorem evaluators (H : Habit) (fuel : Nat) : H.Evaluators (evaluator fuel) := by
  induction fuel with
  | zero => exact ⟨fun _ _ ↦ H.outOfFuel, fun _ _ ↦ H.outOfFuel⟩
  | succ fuel ih => exact ⟨fun e env ↦ evaluate ih e env, fun s env ↦ execute ih fuel s env⟩

theorem runStatements (h : H.Evaluators sub) (ss : List Stmt) :
    H.Holds (Program.runStatements sub ss) := by
  induction ss with
  | nil => exact H.pure _
  | cons s ss ih =>
    refine H.bind (h.execute s _) fun flow ↦ ?_
    cases flow with
    | normal => exact ih
    | returned v => exact H.fail _

end Habit

end Lox
