import Lox.Program
import Lox.Proofs.Run.Endings
import Lox.Proofs.Run.Pairing

/-!
Runs side by side. A comparison says when two machines are alike and what of them belongs together;
it is lawful if each action on machines that are alike leads to machines that are alike. Then the
constructs of the language, made of parts that belong together, do alike (`alike_evaluate`,
`alike_execute`): this is shown once, and whatever is claimed of two runs is left to show for the
actions alone.
-/

set_option autoImplicit false

namespace Lox

/-- A fault whose message tells nothing of frames or lines. -/
def InternalFault.Bare : InternalFault → Prop
  | .frame _ | .unresolvedSuper _ => False
  | _ => True

/-- Property accesses, which as callees stand for methods that are not bound yet. -/
def Expr.IsAccess : Expr → Prop
  | .get _ _ | .super _ _ _ => True
  | _ => False

theorem Evaluation.target_of_not_access {e : Expr} (h : ¬e.IsAccess) (sub : Evaluator)
    (env : FrameId) :
    target sub e env = sub.evaluate e env >>= fun v ↦ Pure.pure (Target.value v) := by
  cases e <;> first | rfl | exact absurd trivial h

/-- How two runs are compared. A world says what has been paired so far; `left` and `right` are ways
of one run to stop that excuse it from whatever the other one does. -/
structure Comparison extends Matching where
  World : Type
  Grows : World → World → Prop
  frames : World → FrameId → FrameId → Prop
  ids : World → Nat → Nat → Prop
  machines : World → Machine → Machine → Prop
  failures : Failure → Failure → Prop
  lines : Nat → Nat → Prop
  nodes : NodeId → NodeId → Prop
  left : Option Failure → Prop
  right : Option Failure → Prop

namespace Comparison

variable {P : Comparison} {α β γ δ : Type}

/-- What belongs together in a world. -/
def pairing (P : Comparison) (w : P.World) : Pairing := ⟨P.toMatching, P.frames w, P.ids w⟩

/-- Outcomes of runs that began in a world: they end alike, in a later one, with answers of a given
kind, unless one of them has an excuse. -/
inductive Alike (P : Comparison) (w : P.World) (answers : P.World → α → β → Prop) :
    Outcome α → Outcome β → Prop
  | outOfFuel : Alike P w answers .outOfFuel .outOfFuel
  | failed {cause cause' : Failure} {w₁ : P.World} {m m' : Machine} (grows : P.Grows w w₁)
    (machines : P.machines w₁ m m') (failures : P.failures cause cause') :
    Alike P w answers (.failed cause m) (.failed cause' m')
  | done {a : α} {b : β} {w₁ : P.World} {m m' : Machine} (grows : P.Grows w w₁)
    (machines : P.machines w₁ m m') (answer : answers w₁ a b) :
    Alike P w answers (.done a m) (.done b m')
  | left {o : Outcome α} {o' : Outcome β} {way : Option Failure} (stops : o.stop? = some way)
    (excused : P.left way) : Alike P w answers o o'
  | right {o : Outcome α} {o' : Outcome β} {way : Option Failure} (stops : o'.stop? = some way)
    (excused : P.right way) : Alike P w answers o o'

/-! ### Kinds of answers -/

/-- Any answers. -/
def anything (P : Comparison) (_ : P.World) (_ : α) (_ : β) : Prop := True

def equal (P : Comparison) (_ : P.World) (a b : α) : Prop := a = b

def values (P : Comparison) (w : P.World) : Value → Value → Prop := Value.Pairs (P.pairing w)

def flows (P : Comparison) (w : P.World) : Flow → Flow → Prop := Flow.Pairs (P.pairing w)

def functions (P : Comparison) (w : P.World) : Function → Function → Prop :=
  Function.Pairs (P.pairing w)

def objects (P : Comparison) (w : P.World) : Object → Object → Prop := Object.Pairs (P.pairing w)

def targets (P : Comparison) (w : P.World) : Target → Target → Prop := Target.Pairs (P.pairing w)

def lists (answers : P.World → α → β → Prop) (w : P.World) : List α → List β → Prop :=
  List.Forall₂ (answers w)

def options (answers : P.World → α → β → Prop) (w : P.World) : Option α → Option β → Prop :=
  Option.Rel (answers w)

def classes (P : Comparison) (w : P.World) : Class → Class → Prop := Class.Pairs (P.pairing w)

/-- Machines that are alike stay so, whatever action they take. -/
structure Lawful (P : Comparison) : Prop where
  refl : ∀ w, P.Grows w w
  trans : ∀ {w w₁ w₂}, P.Grows w w₁ → P.Grows w₁ w₂ → P.Grows w w₂
  extends_ : ∀ {w w₁}, P.Grows w w₁ → (P.pairing w).Extends (P.pairing w₁)
  one : ∀ {w m m'}, P.machines w m m' → ∀ {a a' b b'}, P.ids w a a' → P.ids w b b' →
    (a = b ↔ a' = b')
  runtime : ∀ {line line'} cause, P.lines line line' →
    P.failures (.runtime line cause) (.runtime line' cause)
  unresolvedSuper : ∀ {line line'}, P.lines line line' →
    P.failures (.internal (.unresolvedSuper line)) (.internal (.unresolvedSuper line'))
  internal : ∀ {fault : InternalFault}, fault.Bare →
    P.failures (.internal fault) (.internal fault)
  globals : ∀ {w m m'}, P.machines w m m' → P.frames w Arena.globals Arena.globals
  distance? : ∀ {w m m' id id'}, P.machines w m m' → P.nodes id id' →
    m.distances.find? id = m'.distances.find? id'
  push : ∀ {w m m' k k'} origin origin', P.machines w m m' → P.frames w k k' →
    P.Alike w P.frames (Action.push origin k m) (Action.push origin' k' m')
  releasing : ∀ {α β : Type} {w m m' k k'} {answers : P.World → α → β → Prop} {x : Action α}
    {x' : Action β}, P.frames w k k' → P.Alike w answers (x m) (x' m') →
    P.Alike w answers (Action.releasing k x m) (Action.releasing k' x' m')
  capture : ∀ {w m m' k k'}, P.machines w m m' → P.frames w k k' →
    P.Alike w P.anything (Action.capture k m) (Action.capture k' m')
  define : ∀ {w m m' k k' v v'} name, P.machines w m m' → P.frames w k k' → P.values w v v' →
    P.Alike w P.anything (Action.define k name v m) (Action.define k' name v' m')
  getAt : ∀ {w m m' k k'} distance name, P.machines w m m' → P.frames w k k' →
    P.Alike w P.values (Action.getAt k distance name m) (Action.getAt k' distance name m')
  assignAt : ∀ {w m m' k k' v v'} distance name, P.machines w m m' → P.frames w k k' →
    P.values w v v' →
    P.Alike w P.anything (Action.assignAt k distance name v m)
      (Action.assignAt k' distance name v' m')
  get : ∀ {w m m' k k' line line'} name, P.machines w m m' → P.frames w k k' → P.lines line line' →
    P.Alike w P.values (Action.get k name line m) (Action.get k' name line' m')
  assign : ∀ {w m m' k k' v v' line line'} name, P.machines w m m' → P.frames w k k' →
    P.values w v v' → P.lines line line' →
    P.Alike w P.anything (Action.assign k name v line m) (Action.assign k' name v' line' m')
  fresh : ∀ {w m m'}, P.machines w m m' → P.Alike w P.ids (Action.fresh m) (Action.fresh m')
  newObject : ∀ {w m m' c c'}, P.machines w m m' → P.classes w c c' →
    P.Alike w P.objects (Action.newObject c m) (Action.newObject c' m')
  field? : ∀ {w m m' o o'} name, P.machines w m m' → P.objects w o o' →
    P.Alike w (options P.values) (Action.field? o name m) (Action.field? o' name m')
  setField : ∀ {w m m' o o' v v'} name, P.machines w m m' → P.objects w o o' → P.values w v v' →
    P.Alike w P.anything (Action.setField o name v m) (Action.setField o' name v' m')
  now : ∀ {w m m'}, P.machines w m m' → P.Alike w P.equal (Action.now m) (Action.now m')
  write : ∀ {w m m'} text, P.machines w m m' →
    P.Alike w P.anything (Action.write text m) (Action.write text m')

/-! ### Nodes -/

/-- Names of properties count by their texts. -/
structure names (P : Comparison) (n n' : Name) : Prop where
  text : n.text = n'.text
  line : P.lines n.line n'.line

/-- Callees that stand for their targets in the same way. -/
inductive Callees (P : Comparison) : Expr → Expr → Prop
  | get {o o' : Expr} {name name' : Name} (object : P.exprs o o') (named : P.names name name') :
    Callees P (.get o name) (.get o' name')
  | super {id id' line line' : Nat} {method method' : Name} (node : P.nodes id id')
    (named : P.names method method') : Callees P (.super id line method) (.super id' line' method')
  | other {e e' : Expr} (pair : P.exprs e e') (value : ¬e.IsAccess) (value' : ¬e'.IsAccess) :
    Callees P e e'

/-- Expressions of one construct, whose parts belong together. -/
inductive Expressions (P : Comparison) : Expr → Expr → Prop
  | literal (value : Literal) : Expressions P (.literal value) (.literal value)
  | grouping {e e' : Expr} (inner : P.exprs e e') : Expressions P (.grouping e) (.grouping e')
  | unary {op : UnaryOp} {line line' : Nat} {e e' : Expr} (lines : P.lines line line')
    (operand : P.exprs e e') : Expressions P (.unary op line e) (.unary op line' e')
  | binary {op : BinaryOp} {line line' : Nat} {l l' r r' : Expr} (lines : P.lines line line')
    (left : P.exprs l l') (right : P.exprs r r') :
    Expressions P (.binary op line l r) (.binary op line' l' r')
  | logical {op : LogicalOp} {line line' : Nat} {l l' r r' : Expr} (left : P.exprs l l')
    (right : P.exprs r r') : Expressions P (.logical op line l r) (.logical op line' l' r')
  | var {id id' : NodeId} {name name' : Name} (node : P.nodes id id')
    (named : P.names name name') : Expressions P (.var id name) (.var id' name')
  | assign {id id' : NodeId} {name name' : Name} {e e' : Expr} (node : P.nodes id id')
    (named : P.names name name') (value : P.exprs e e') :
    Expressions P (.assign id name e) (.assign id' name' e')
  | call {callee callee' : Expr} {line line' : Nat} {args args' : List Expr}
    (callees : P.Callees callee callee') (lines : P.lines line line')
    (arguments : List.Forall₂ P.exprs args args') :
    Expressions P (.call callee line args) (.call callee' line' args')
  | get {o o' : Expr} {name name' : Name} (object : P.exprs o o') (named : P.names name name') :
    Expressions P (.get o name) (.get o' name')
  | set {o o' e e' : Expr} {name name' : Name} (object : P.exprs o o')
    (named : P.names name name') (value : P.exprs e e') :
    Expressions P (.set o name e) (.set o' name' e')
  | this {id id' : NodeId} {line line' : Nat} (node : P.nodes id id') (lines : P.lines line line') :
    Expressions P (.this id line) (.this id' line')
  | super {id id' line line' : Nat} {method method' : Name} (node : P.nodes id id')
    (named : P.names method method') :
    Expressions P (.super id line method) (.super id' line' method')

/-- Classes that are extended. -/
structure Superclasses (P : Comparison) (s s' : Superclass) : Prop where
  node : P.nodes s.id s'.id
  named : P.names s.name s'.name

/-- Statements of one construct, whose parts belong together. -/
inductive Statements (P : Comparison) : Stmt → Stmt → Prop
  | expression {e e' : Expr} (value : P.exprs e e') : Statements P (.expression e) (.expression e')
  | print {e e' : Expr} (value : P.exprs e e') : Statements P (.print e) (.print e')
  | var {name name' : Name} {e e' : Option Expr} (text : name.text = name'.text)
    (initial : Option.Rel P.exprs e e') : Statements P (.var name e) (.var name' e')
  | block {ss ss' : List Stmt} (body : List.Forall₂ P.stmts ss ss') :
    Statements P (.block ss) (.block ss')
  | ifThen {e e' : Expr} {s s' : Stmt} (test : P.exprs e e') (consequent : P.stmts s s') :
    Statements P (.ifThen e s) (.ifThen e' s')
  | ifElse {e e' : Expr} {s s' t t' : Stmt} (test : P.exprs e e') (consequent : P.stmts s s')
    (alternative : P.stmts t t') : Statements P (.ifElse e s t) (.ifElse e' s' t')
  | loop {e e' : Expr} {s s' : Stmt} (test : P.exprs e e') (body : P.stmts s s') :
    Statements P (.loop e s) (.loop e' s')
  | function {r r' : Routine} (routines : P.routines r r') :
    Statements P (.function r) (.function r')
  | return_ {line line' : Nat} {e e' : Option Expr} (value : Option.Rel P.exprs e e') :
    Statements P (.return_ line e) (.return_ line' e')
  | class_ {name name' : Name} {s s' : Option Superclass} {rs rs' : List Routine}
    (named : P.names name name') (superclass : Option.Rel P.Superclasses s s')
    (methods : List.Forall₂ P.routines rs rs') :
    Statements P (.class_ name s rs) (.class_ name' s' rs')

/-- Evaluators that do alike with nodes that belong together. -/
structure Evaluators (P : Comparison) (sub sub' : Evaluator) : Prop where
  evaluate : ∀ {w m m' env env' e e'}, P.exprs e e' → P.machines w m m' → P.frames w env env' →
    P.Alike w P.values (sub.evaluate e env m) (sub'.evaluate e' env' m')
  execute : ∀ {w m m' env env' s s'}, P.stmts s s' → P.machines w m m' → P.frames w env env' →
    P.Alike w P.flows (sub.execute s env m) (sub'.execute s' env' m')

/-! ### Putting actions together -/

variable {w : P.World} {m m' : Machine} {env env' : FrameId} {answers : P.World → α → β → Prop}
  {answers' : P.World → γ → δ → Prop}

theorem Alike.after (law : P.Lawful) {w₁ : P.World} {o : Outcome α} {o' : Outcome β}
    (h : P.Alike w₁ answers o o') (hgrows : P.Grows w w₁) : P.Alike w answers o o' := by
  cases h with
  | outOfFuel => exact .outOfFuel
  | failed hrest hm hcause => exact .failed (law.trans hgrows hrest) hm hcause
  | done hrest hm ha => exact .done (law.trans hgrows hrest) hm ha
  | left hstop hexcused => exact .left hstop hexcused
  | right hstop hexcused => exact .right hstop hexcused

/-- Of two actions in a row the second ones may be compared with an earlier world. -/
theorem alike_bind_since (law : P.Lawful) {w₁ : P.World} (hgrows : P.Grows w w₁) {x : Action α}
    {x' : Action β} {f : α → Action γ} {f' : β → Action δ} (hx : P.Alike w₁ answers (x m) (x' m'))
    (hf : ∀ {w₂ m₂ m₂' a b}, P.Grows w₁ w₂ → P.machines w₂ m₂ m₂' → answers w₂ a b →
      P.Alike w answers' (f a m₂) (f' b m₂')) :
    P.Alike w answers' ((x >>= f) m) ((x' >>= f') m') := by
  rw [Action.bind_apply, Action.bind_apply]
  generalize x m = o at hx
  generalize x' m' = o' at hx
  cases hx with
  | outOfFuel => exact .outOfFuel
  | failed hgrows' hm hcause => exact .failed (law.trans hgrows hgrows') hm hcause
  | done hgrows' hm ha => exact hf hgrows' hm ha
  | left hstop hexcused =>
    cases o with
    | done a m₁ => cases hstop
    | _ => exact .left hstop hexcused
  | right hstop hexcused =>
    cases o' with
    | done a m₁ => cases hstop
    | _ => exact .right hstop hexcused

theorem alike_bind (law : P.Lawful) {x : Action α} {x' : Action β} {f : α → Action γ}
    {f' : β → Action δ} (hx : P.Alike w answers (x m) (x' m'))
    (hf : ∀ {w₁ m₁ m₁' a b}, P.Grows w w₁ → P.machines w₁ m₁ m₁' → answers w₁ a b →
      P.Alike w₁ answers' (f a m₁) (f' b m₁')) :
    P.Alike w answers' ((x >>= f) m) ((x' >>= f') m') :=
  alike_bind_since law (law.refl w) hx fun hgrows hm ha ↦ (hf hgrows hm ha).after law hgrows

theorem alike_pure (law : P.Lawful) {a : α} {b : β} (hm : P.machines w m m') (h : answers w a b) :
    P.Alike w answers ((Pure.pure a : Action α) m) ((Pure.pure b : Action β) m') :=
  .done (law.refl w) hm h

theorem alike_fail (law : P.Lawful) {cause cause' : Failure} (hm : P.machines w m m')
    (h : P.failures cause cause') :
    P.Alike w answers ((Action.fail cause : Action α) m) ((Action.fail cause' : Action β) m') :=
  .failed (law.refl w) hm h

theorem alike_failAt (law : P.Lawful) {line line' : Nat} (hm : P.machines w m m')
    (h : P.lines line line') (cause : RuntimeError) :
    P.Alike w answers ((Action.failAt line cause : Action α) m)
      ((Action.failAt line' cause : Action β) m') :=
  alike_fail law hm (law.runtime cause h)

theorem alike_distance? (law : P.Lawful) {id id' : NodeId} (hm : P.machines w m m')
    (h : P.nodes id id') :
    P.Alike w P.equal (Action.distance? id m) (Action.distance? id' m') :=
  .done (law.refl w) hm (law.distance? hm h)

/-! ### Later worlds -/

section

variable (law : P.Lawful) {w₁ : P.World} (hgrows : P.Grows w w₁)

include law hgrows

theorem Lawful.frames {k k' : FrameId} (h : P.frames w k k') : P.frames w₁ k k' :=
  (law.extends_ hgrows).frames h

theorem Lawful.values {v v' : Value} (h : P.values w v v') : P.values w₁ v v' :=
  Value.Pairs.extend h (law.extends_ hgrows)

theorem Lawful.functions {f f' : Function} (h : P.functions w f f') : P.functions w₁ f f' :=
  Function.Pairs.extend h (law.extends_ hgrows)

theorem Lawful.classes {c c' : Class} (h : P.classes w c c') : P.classes w₁ c c' :=
  Class.Pairs.extend h (law.extends_ hgrows)

theorem Lawful.objects {o o' : Object} (h : P.objects w o o') : P.objects w₁ o o' :=
  Object.Pairs.extend h (law.extends_ hgrows)

theorem Lawful.targets {t t' : Target} (h : P.targets w t t') : P.targets w₁ t t' :=
  Target.Pairs.extend h (law.extends_ hgrows)

theorem Lawful.lists {vs vs' : List Value} (h : lists P.values w vs vs') :
    lists P.values w₁ vs vs' :=
  List.Forall₂.imp (fun _ _ ↦ law.values hgrows) h

end

theorem Lawful.options (law : P.Lawful) {w₁ : P.World} (hgrows : P.Grows w w₁)
    {c c' : Option Class} (h : options P.classes w c c') : options P.classes w₁ c c' := by
  cases h with
  | none => exact .none
  | some hc => exact .some (law.classes hgrows hc)

/-! ### Names and methods -/

variable {sub sub' : Evaluator} {v v' : Value} {vs vs' : List Value}

section

variable (law : P.Lawful) (hm : P.machines w m m') (henv : P.frames w env env')

include law hm

open Evaluation

include henv in
theorem alike_lookUp {id id' : NodeId} {line line' : Nat} (name : String) (hid : P.nodes id id')
    (hline : P.lines line line') :
    P.Alike w P.values (lookUp id name line env m) (lookUp id' name line' env' m') := by
  refine alike_bind law (alike_distance? law hm hid) fun {w₁ _ _ distance? _} hgrows hm₁ heq ↦ ?_
  cases heq
  cases distance? with
  | none => exact law.get name hm₁ (law.globals hm₁) hline
  | some distance => exact law.getAt distance name hm₁ (law.frames hgrows henv)

include henv in
theorem alike_store {id id' : NodeId} {name name' : Name} (hid : P.nodes id id')
    (hname : P.names name name') (hv : P.values w v v') :
    P.Alike w P.anything (store id name v env m) (store id' name' v' env' m') := by
  obtain ⟨text, line⟩ := name
  obtain ⟨text', line'⟩ := name'
  obtain ⟨rfl, hline⟩ := hname
  refine alike_bind law (alike_distance? law hm hid) fun {w₁ _ _ distance? _} hgrows hm₁ heq ↦ ?_
  cases heq
  cases distance? with
  | none => exact law.assign _ hm₁ (law.globals hm₁) (law.values hgrows hv) hline
  | some distance =>
    exact law.assignAt distance _ hm₁ (law.frames hgrows henv) (law.values hgrows hv)

theorem alike_bindMethod {f f' : Function} {o o' : Object} (hf : P.functions w f f')
    (ho : P.objects w o o') :
    P.Alike w P.functions (bindMethod f o m) (bindMethod f' o' m') := by
  refine alike_bind law (law.push _ _ hm hf.closure) fun hgrows hm₁ hframe ↦ ?_
  refine alike_bind law (law.define "this" hm₁ hframe (.object (law.objects hgrows ho)))
    fun hgrows₂ hm₂ _ ↦ ?_
  exact alike_pure law hm₂ ⟨hf.routine, law.frames hgrows₂ hframe, hf.isInitializer⟩

theorem alike_toValue {t t' : Target} (ht : P.targets w t t') :
    P.Alike w P.values (Target.toValue t m) (Target.toValue t' m') := by
  cases ht with
  | value hv => exact alike_pure law hm hv
  | method hf ho =>
    refine alike_bind law (alike_bindMethod law hm hf ho) fun hgrows hm₁ hbound ↦ ?_
    refine alike_bind law (law.capture hm₁ hbound.closure) fun hgrows₂ hm₂ _ ↦ ?_
    refine alike_bind law (law.fresh hm₂) fun hgrows₃ hm₃ hid ↦ ?_
    exact alike_pure law hm₃
      (.function hid (law.functions hgrows₃ (law.functions hgrows₂ hbound)))

theorem alike_property {name name' : Name} (hv : P.values w v v') (hname : P.names name name') :
    P.Alike w P.targets (property v name m) (property v' name' m') := by
  obtain ⟨text, line⟩ := name
  obtain ⟨text', line'⟩ := name'
  obtain ⟨rfl, hline⟩ := hname
  cases hv with
  | plain hplain =>
    cases v with
    | object o => exact hplain.elim
    | _ => exact alike_failAt law hm hline _
  | function _ _ => exact alike_failAt law hm hline _
  | class_ _ => exact alike_failAt law hm hline _
  | @object o o' ho =>
    refine alike_bind law (law.field? _ hm ho) fun {w₁ m₁ m₁' field field'} hgrows hm₁ hfield ↦ ?_
    have ho₁ := law.objects hgrows ho
    have hmethod := ho₁.class_.method? text
    dsimp only
    generalize o.class_.method? text = f? at hmethod
    generalize o'.class_.method? text = f?' at hmethod
    cases hfield with
    | some hv => exact alike_pure law hm₁ (.value hv)
    | none =>
      cases hmethod with
      | some hf => exact alike_pure law hm₁ (.method hf ho₁)
      | none => exact alike_failAt law hm₁ hline _

include henv in
theorem alike_superMethod {id id' : NodeId} {method method' : Name} (hid : P.nodes id id')
    (hname : P.names method method') :
    P.Alike w P.targets (superMethod id method env m) (superMethod id' method' env' m') := by
  obtain ⟨text, line⟩ := method
  obtain ⟨text', line'⟩ := method'
  obtain ⟨rfl, hline⟩ := hname
  refine alike_bind law (alike_distance? law hm hid) fun {w₁ _ _ distance? _} hgrows hm₁ heq ↦ ?_
  cases heq
  cases distance? with
  | none => exact alike_fail law hm₁ (law.unresolvedSuper hline)
  | some distance =>
    have henv₁ := law.frames hgrows henv
    refine alike_bind law (law.getAt distance "super" hm₁ henv₁)
      fun {w₂ m₂ m₂' v v'} hgrows₂ hm₂ hv ↦ ?_
    cases hv with
    | plain hplain =>
      cases v with
      | class_ c => exact hplain.elim
      | _ => exact alike_fail law hm₂ (law.internal trivial)
    | function _ _ => exact alike_fail law hm₂ (law.internal trivial)
    | object _ => exact alike_fail law hm₂ (law.internal trivial)
    | @class_ c c' hc =>
      cases distance with
      | zero => exact alike_fail law hm₂ (law.internal trivial)
      | succ inner =>
        refine alike_bind law (law.getAt inner "this" hm₂ (law.frames hgrows₂ henv₁))
          fun {w₃ m₃ m₃' u u'} hgrows₃ hm₃ hu ↦ ?_
        cases hu with
        | plain hplain =>
          cases u with
          | object o => exact hplain.elim
          | _ => exact alike_fail law hm₃ (law.internal trivial)
        | function _ _ => exact alike_fail law hm₃ (law.internal trivial)
        | class_ _ => exact alike_fail law hm₃ (law.internal trivial)
        | object ho =>
          have hmethod := (law.classes hgrows₃ hc).method? text
          dsimp only
          generalize c.method? text = f? at hmethod
          generalize c'.method? text = f?' at hmethod
          cases hmethod with
          | some hf => exact alike_pure law hm₃ (.method hf ho)
          | none => exact alike_failAt law hm₃ hline _

include henv in
theorem alike_target (hsub : P.Evaluators sub sub') {e e' : Expr} (he : P.Callees e e') :
    P.Alike w P.targets (target sub e env m) (target sub' e' env' m') := by
  cases he with
  | get ho hname =>
    exact alike_bind law (hsub.evaluate ho hm henv) fun hgrows hm₁ hv ↦
      alike_property law hm₁ hv hname
  | super hid hname => exact alike_superMethod law hm henv hid hname
  | other he hvalue hvalue' =>
    rw [target_of_not_access hvalue, target_of_not_access hvalue']
    exact alike_bind law (hsub.evaluate he hm henv) fun _ hm₁ hv ↦ alike_pure law hm₁ (.value hv)

end

/-! ### Calls -/

open Evaluation

theorem alike_evaluateAll (law : P.Lawful) (hsub : P.Evaluators sub sub') {es es' : List Expr}
    (hes : List.Forall₂ P.exprs es es') (hm : P.machines w m m') (henv : P.frames w env env') :
    P.Alike w (lists P.values) (evaluateAll sub env es m) (evaluateAll sub' env' es' m') := by
  induction hes generalizing w m m' with
  | nil => exact alike_pure law hm .nil
  | cons he _ ih =>
    refine alike_bind law (hsub.evaluate he hm henv) fun hgrows hm₁ hv ↦ ?_
    refine alike_bind law (ih hm₁ (law.frames hgrows henv)) fun hgrows₂ hm₂ hvs ↦ ?_
    exact alike_pure law hm₂ (.cons (law.values hgrows₂ hv) hvs)

theorem alike_executeAll (law : P.Lawful) (hsub : P.Evaluators sub sub') {ss ss' : List Stmt}
    (hss : List.Forall₂ P.stmts ss ss') (hm : P.machines w m m') (henv : P.frames w env env') :
    P.Alike w P.flows (executeAll sub env ss m) (executeAll sub' env' ss' m') := by
  induction hss generalizing w m m' with
  | nil => exact alike_pure law hm .normal
  | cons hs _ ih =>
    refine alike_bind law (hsub.execute hs hm henv) fun hgrows hm₁ hflow ↦ ?_
    cases hflow with
    | normal => exact ih hm₁ (law.frames hgrows henv)
    | returned hv => exact alike_pure law hm₁ (.returned hv)

theorem alike_defineParameters (law : P.Lawful) {names names' : List Name}
    (hnames : names.map Name.text = names'.map Name.text) (hvs : lists P.values w vs vs')
    (hm : P.machines w m m') (henv : P.frames w env env') :
    P.Alike w P.anything (defineParameters env names vs m)
      (defineParameters env' names' vs' m') := by
  induction names generalizing w m m' names' vs vs' with
  | nil =>
    obtain rfl := List.map_eq_nil_iff.1 hnames.symm
    exact alike_pure law hm trivial
  | cons name names ih =>
    cases names' with
    | nil => cases hnames
    | cons name' names' =>
      obtain ⟨htext, hrest⟩ := List.cons.inj hnames
      cases hvs with
      | nil => exact alike_pure law hm trivial
      | cons hv hvs =>
        have hfirst := law.define name.text hm henv hv
        nth_rewrite 2 [htext] at hfirst
        exact alike_bind law hfirst fun hgrows hm₁ _ ↦
          ih hrest (law.lists hgrows hvs) hm₁ (law.frames hgrows henv)

theorem alike_callFunction (law : P.Lawful) (hsub : P.Evaluators sub sub') {f f' : Function}
    (hf : P.functions w f f') (hvs : lists P.values w vs vs') (hm : P.machines w m m') :
    P.Alike w P.values (callFunction sub f vs m) (callFunction sub' f' vs' m') := by
  refine alike_bind law (law.push _ _ hm hf.closure) fun hgrows hm₁ hframe ↦ ?_
  refine alike_bind law (law.releasing hframe (alike_bind law
    (alike_defineParameters law (P.parameters hf.routine) (law.lists hgrows hvs) hm₁ hframe)
    fun hgrows₂ hm₂ _ ↦
      alike_executeAll law hsub (P.body hf.routine) hm₂ (law.frames hgrows₂ hframe)))
    fun hgrows₂ hm₂ hflow ↦ ?_
  rw [← hf.isInitializer]
  split
  · exact law.getAt 0 "this" hm₂ (law.frames hgrows₂ (law.frames hgrows hf.closure))
  · exact alike_pure law hm₂ (Flow.Pairs.value hflow)

theorem alike_invoke (law : P.Lawful) (hsub : P.Evaluators sub sub') {f f' : Function}
    {o o' : Object} (hf : P.functions w f f') (ho : P.objects w o o')
    (hvs : lists P.values w vs vs') (hm : P.machines w m m') :
    P.Alike w P.values (invoke sub f o vs m) (invoke sub' f' o' vs' m') := by
  refine alike_bind law (alike_bindMethod law hm hf ho) fun hgrows hm₁ hbound ↦ ?_
  exact law.releasing hbound.closure
    (alike_callFunction law hsub hbound (law.lists hgrows hvs) hm₁)

theorem alike_instantiate (law : P.Lawful) (hsub : P.Evaluators sub sub') {c c' : Class}
    (hc : P.classes w c c') (hvs : lists P.values w vs vs') (hm : P.machines w m m') :
    P.Alike w P.values (instantiate sub c vs m) (instantiate sub' c' vs' m') := by
  refine alike_bind law (law.newObject hm hc) fun hgrows hm₁ ho ↦ ?_
  have hmethod := (law.classes hgrows hc).method? initializerName
  generalize c.method? initializerName = f? at hmethod
  generalize c'.method? initializerName = f?' at hmethod
  cases hmethod with
  | none => exact alike_pure law hm₁ (.object ho)
  | some hf =>
    refine alike_bind law (alike_invoke law hsub hf ho (law.lists hgrows hvs) hm₁)
      fun hgrows₂ hm₂ _ ↦ ?_
    exact alike_pure law hm₂ (.object (law.objects hgrows₂ ho))

/-- Native functions answer the same, and values that are plain. -/
theorem alike_answer (law : P.Lawful) (hvs : lists P.values w vs vs') (hm : P.machines w m m')
    (f : Native) : P.Alike w (fun _ r r' ↦ r = r' ∧ ∀ v, r = .ok v → v.Plain) (f.answer vs m)
      (f.answer vs' m') := by
  rw [answer_pairs hvs]
  rcases f.answer_cases vs with heq | ⟨r, heq, hplain⟩
  · rw [heq]
    refine alike_bind law (law.now hm) fun {w₁ _ _ time time'} hgrows hm₁ htime ↦ ?_
    obtain rfl : time = time' := htime
    exact alike_pure law hm₁ ⟨rfl, fun v hv ↦ by cases hv; trivial⟩
  · rw [heq]
    exact alike_pure law hm ⟨rfl, hplain⟩

theorem alike_callValue (law : P.Lawful) (hsub : P.Evaluators sub sub') {line line' : Nat}
    (hv : P.values w v v') (hline : P.lines line line') (hvs : lists P.values w vs vs')
    (hm : P.machines w m m') :
    P.Alike w P.values (callValue sub v line vs m) (callValue sub' v' line' vs' m') := by
  cases hv with
  | plain hplain =>
    cases v with
    | native f =>
      refine alike_bind law (alike_answer law hvs hm f) fun {w₁ m₁ m₁' r r'} hgrows hm₁ hr ↦ ?_
      obtain ⟨rfl, hplain⟩ := hr
      cases r with
      | error cause => exact alike_failAt law hm₁ hline cause
      | ok x => exact alike_pure law hm₁ (.plain (hplain x rfl))
    | function _ _ => exact hplain.elim
    | class_ _ => exact hplain.elim
    | _ => exact alike_failAt law hm hline _
  | function _ hf => exact alike_callFunction law hsub hf hvs hm
  | class_ hc => exact alike_instantiate law hsub hc hvs hm
  | object _ => exact alike_failAt law hm hline _

theorem alike_checkArity (law : P.Lawful) {line line' : Nat} (hline : P.lines line line')
    (expected given : Nat) (hm : P.machines w m m') :
    P.Alike w P.anything (checkArity line expected given m)
      (checkArity line' expected given m') := by
  unfold checkArity
  split
  · exact alike_pure law hm trivial
  · exact alike_failAt law hm hline _

theorem alike_callTarget (law : P.Lawful) (hsub : P.Evaluators sub sub') {t t' : Target}
    {line line' : Nat} (ht : P.targets w t t') (hline : P.lines line line')
    (hvs : lists P.values w vs vs') (hm : P.machines w m m') :
    P.Alike w P.values (callTarget sub t line vs m) (callTarget sub' t' line' vs' m') := by
  have hlength : vs.length = vs'.length := List.Forall₂.length_eq hvs
  unfold callTarget
  cases ht with
  | method hf ho =>
    dsimp only
    rw [← hf.arity, ← hlength]
    exact alike_bind law (alike_checkArity law hline _ _ hm) fun hgrows hm₁ _ ↦
      alike_invoke law hsub (law.functions hgrows hf) (law.objects hgrows ho)
        (law.lists hgrows hvs) hm₁
  | @value v v' hv =>
    dsimp only
    rw [← Value.Pairs.arity? hv, ← hlength]
    cases v.arity? with
    | none => exact alike_failAt law hm hline _
    | some arity =>
      exact alike_bind law (alike_checkArity law hline _ _ hm) fun hgrows hm₁ _ ↦
        alike_callValue law hsub (law.values hgrows hv) hline (law.lists hgrows hvs) hm₁

/-! ### Expressions -/

theorem alike_unary (law : P.Lawful) {line line' : Nat} (op : UnaryOp) (hline : P.lines line line')
    (hv : P.values w v v') (hm : P.machines w m m') :
    P.Alike w P.values (unary op line v m) (unary op line' v' m') := by
  cases op with
  | not =>
    change P.Alike w P.values _ ((Pure.pure (.bool !v'.truthy) : Action Value) m')
    rw [← Value.Pairs.truthy hv]
    exact alike_pure law hm (.plain trivial)
  | negate =>
    cases hv with
    | plain hplain =>
      cases v with
      | number n => exact alike_pure law hm (.plain trivial)
      | _ => exact alike_failAt law hm hline _
    | _ => exact alike_failAt law hm hline _

theorem alike_binary (law : P.Lawful) {line line' : Nat} {u u' : Value} (op : BinaryOp)
    (hline : P.lines line line') (hv : P.values w v v') (hu : P.values w u u')
    (hm : P.machines w m m') :
    P.Alike w P.values (binary op line v u m) (binary op line' v' u' m') := by
  rw [binary_eq, binary_eq, operate_pairs (law.one hm) op hv hu]
  cases hanswer : operate op v u with
  | error cause => exact alike_failAt law hm hline cause
  | ok x => exact alike_pure law hm (.plain (operate_plain hanswer))

theorem decides_pairs {π : Pairing} (op : LogicalOp) (hv : v.Pairs π v') :
    decides op v = decides op v' := by
  cases op <;> simp [decides, hv.truthy]

theorem alike_evaluate (law : P.Lawful) (hsub : P.Evaluators sub sub') {e e' : Expr}
    (he : P.Expressions e e') (hm : P.machines w m m') (henv : P.frames w env env') :
    P.Alike w P.values (evaluate sub e env m) (evaluate sub' e' env' m') := by
  cases he with
  | literal value => exact alike_pure law hm (.plain (by cases value <;> trivial))
  | grouping hinner => exact hsub.evaluate hinner hm henv
  | unary hline he =>
    exact alike_bind law (hsub.evaluate he hm henv) fun _ hm₁ hv ↦ alike_unary law _ hline hv hm₁
  | binary hline hl hr =>
    refine alike_bind law (hsub.evaluate hl hm henv) fun hgrows hm₁ hv ↦ ?_
    exact alike_bind law (hsub.evaluate hr hm₁ (law.frames hgrows henv)) fun hgrows₂ hm₂ hu ↦
      alike_binary law _ hline (law.values hgrows₂ hv) hu hm₂
  | logical hl hr =>
    refine alike_bind law (hsub.evaluate hl hm henv) fun hgrows hm₁ hv ↦ ?_
    rw [decides_pairs _ hv]
    split
    · exact alike_pure law hm₁ hv
    · exact hsub.evaluate hr hm₁ (law.frames hgrows henv)
  | var hid hname =>
    change P.Alike w P.values (lookUp _ _ _ env m) (lookUp _ _ _ env' m')
    rw [hname.text]
    exact alike_lookUp law hm henv _ hid hname.line
  | assign hid hname he =>
    refine alike_bind law (hsub.evaluate he hm henv) fun hgrows hm₁ hv ↦ ?_
    exact alike_bind law (alike_store law hm₁ (law.frames hgrows henv) hid hname hv)
      fun hgrows₂ hm₂ _ ↦ alike_pure law hm₂ (law.values hgrows₂ hv)
  | call hcallee hline hargs =>
    refine alike_bind law (alike_target law hm henv hsub hcallee) fun hgrows hm₁ ht ↦ ?_
    exact alike_bind law (alike_evaluateAll law hsub hargs hm₁ (law.frames hgrows henv))
      fun hgrows₂ hm₂ hvs ↦ alike_callTarget law hsub (law.targets hgrows₂ ht) hline hvs hm₂
  | get ho hname =>
    refine alike_bind law (hsub.evaluate ho hm henv) fun _ hm₁ hv ↦ ?_
    exact alike_bind law (alike_property law hm₁ hv hname) fun _ hm₂ ht ↦
      alike_toValue law hm₂ ht
  | set ho hname he =>
    refine alike_bind law (hsub.evaluate ho hm henv) fun {w₁ m₁ m₁' v v'} hgrows hm₁ hv ↦ ?_
    cases hv with
    | plain hplain =>
      cases v with
      | object o => exact hplain.elim
      | _ => exact alike_failAt law hm₁ hname.line _
    | function _ _ => exact alike_failAt law hm₁ hname.line _
    | class_ _ => exact alike_failAt law hm₁ hname.line _
    | object ho =>
      refine alike_bind law (hsub.evaluate he hm₁ (law.frames hgrows henv))
        fun hgrows₂ hm₂ hu ↦ ?_
      rw [hname.text]
      exact alike_bind law (law.setField _ hm₂ (law.objects hgrows₂ ho) hu)
        fun hgrows₃ hm₃ _ ↦ alike_pure law hm₃ (law.values hgrows₃ hu)
  | this hid hline => exact alike_lookUp law hm henv "this" hid hline
  | super hid hname =>
    exact alike_bind law (alike_superMethod law hm henv hid hname) fun _ hm₁ ht ↦
      alike_toValue law hm₁ ht

/-! ### Declarations -/

theorem alike_declareFunction (law : P.Lawful) {r r' : Routine} (hr : P.routines r r')
    (hm : P.machines w m m') (henv : P.frames w env env') :
    P.Alike w P.anything (declareFunction r env m) (declareFunction r' env' m') := by
  refine alike_bind law (law.capture hm henv) fun hgrows hm₁ _ ↦ ?_
  refine alike_bind law (law.fresh hm₁) fun {w₂ _ _ id id'} hgrows₂ hm₂ hid ↦ ?_
  have henv₂ := law.frames hgrows₂ (law.frames hgrows henv)
  have hvalue : P.values w₂ (.function id ⟨r, env, false⟩) (.function id' ⟨r', env', false⟩) :=
    .function hid ⟨hr, henv₂, rfl⟩
  have hdefine := law.define r.name.text hm₂ henv₂ hvalue
  nth_rewrite 2 [P.name hr] at hdefine
  exact hdefine

theorem alike_superclassValue (law : P.Lawful) {s s' : Option Superclass}
    (hs : Option.Rel P.Superclasses s s') (hm : P.machines w m m') (henv : P.frames w env env') :
    P.Alike w (options P.classes) (superclassValue env s m) (superclassValue env' s' m') := by
  cases hs with
  | none => exact alike_pure law hm .none
  | @some s s' hs =>
    have hread : P.Alike w P.values (lookUp s.id s.name.text s.name.line env m)
        (lookUp s'.id s'.name.text s'.name.line env' m') := by
      rw [hs.named.text]
      exact alike_lookUp law hm henv _ hs.node hs.named.line
    refine alike_bind law hread fun {w₁ m₁ m₁' v v'} hgrows hm₁ hv ↦ ?_
    have hline := hs.named.line
    cases hv with
    | plain hplain =>
      cases v with
      | class_ c => exact hplain.elim
      | _ => exact alike_failAt law hm₁ hline _
    | function _ _ => exact alike_failAt law hm₁ hline _
    | object _ => exact alike_failAt law hm₁ hline _
    | class_ hc => exact alike_pure law hm₁ (.some hc)

theorem alike_methodFrame (law : P.Lawful) {name name' : Name} {rs rs' : List Routine}
    {c c' : Option Class} (hc : options P.classes w c c') (hm : P.machines w m m')
    (henv : P.frames w env env') :
    P.Alike w P.frames (methodFrame name rs env c m) (methodFrame name' rs' env' c' m') := by
  cases hc with
  | none => exact alike_pure law hm henv
  | some hc =>
    refine alike_bind law (law.push _ _ hm henv) fun hgrows hm₁ hframe ↦ ?_
    exact alike_bind law (law.define "super" hm₁ hframe (.class_ (law.classes hgrows hc)))
      fun hgrows₂ hm₂ _ ↦ alike_pure law hm₂ (law.frames hgrows₂ hframe)

theorem pairs_methodTable {π : Pairing} {rs rs' : List Routine}
    (hrs : List.Forall₂ π.routines rs rs') (henv : π.frames env env') :
    (methodTable rs env).Pairs (Function.Pairs π) (methodTable rs' env') := by
  refine Bindings.Pairs.merge Bindings.pairs_empty ?_
  change List.Forall₂ _ (rs.map _) (rs'.map _)
  refine List.forall₂_map_left_iff.2 (List.forall₂_map_right_iff.2 (hrs.imp fun r r' hr ↦ ?_))
  exact ⟨π.name hr, hr, henv, by rw [π.name hr]⟩

theorem alike_declareClass (law : P.Lawful) {name name' : Name} {s s' : Option Superclass}
    {rs rs' : List Routine} (hname : P.names name name') (hs : Option.Rel P.Superclasses s s')
    (hrs : List.Forall₂ P.routines rs rs') (hm : P.machines w m m')
    (henv : P.frames w env env') :
    P.Alike w P.anything (declareClass name s rs env m) (declareClass name' s' rs' env' m') := by
  obtain ⟨text, line⟩ := name
  obtain ⟨text', line'⟩ := name'
  obtain ⟨rfl, hline⟩ := hname
  refine alike_bind law (alike_superclassValue law hs hm henv) fun hgrows hm₁ hparent ↦ ?_
  have henv₁ := law.frames hgrows henv
  refine alike_bind law (law.define _ hm₁ henv₁ (.plain trivial)) fun hgrows₂ hm₂ _ ↦ ?_
  have henv₂ := law.frames hgrows₂ henv₁
  have hparent₂ := law.options hgrows₂ hparent
  refine alike_bind law (alike_methodFrame law hparent₂ hm₂ henv₂) fun hgrows₃ hm₃ hframe ↦ ?_
  refine alike_bind law (law.capture hm₃ hframe) fun hgrows₄ hm₄ _ ↦ ?_
  refine alike_bind law (law.fresh hm₄) fun hgrows₅ hm₅ hid ↦ ?_
  have henv₅ := law.frames hgrows₅ (law.frames hgrows₄ (law.frames hgrows₃ henv₂))
  have hframe₅ := law.frames hgrows₅ (law.frames hgrows₄ hframe)
  refine law.assign _ hm₅ henv₅ (.class_ ⟨⟨hid, rfl, pairs_methodTable hrs hframe₅⟩, ?_⟩) hline
  cases hparent₂ with
  | none => exact .nil
  | some hc =>
    exact (law.classes hgrows₅ (law.classes hgrows₄ (law.classes hgrows₃ hc))).layers

/-! ### Statements -/

theorem alike_optional (law : P.Lawful) (hsub : P.Evaluators sub sub') {e e' : Option Expr}
    (he : Option.Rel P.exprs e e') (hm : P.machines w m m') (henv : P.frames w env env') :
    P.Alike w P.values (optional sub env e m) (optional sub' env' e' m') := by
  cases he with
  | none => exact alike_pure law hm (.plain trivial)
  | some he => exact hsub.evaluate he hm henv

/-- Rounds of a loop, of which one run may have more to spare. -/
theorem alike_rounds (law : P.Lawful) (hsub : P.Evaluators sub sub') {e e' : Expr} {s s' : Stmt}
    (he : P.exprs e e') (hs : P.stmts s s') {fuel fuel' : Nat}
    (hfuel : (fuel ≤ fuel' ∨ P.right none) ∧ (fuel' ≤ fuel ∨ P.left none))
    (hm : P.machines w m m') (henv : P.frames w env env') :
    P.Alike w P.flows (rounds (sub.evaluate e env) (sub.execute s env) fuel m)
      (rounds (sub'.evaluate e' env') (sub'.execute s' env') fuel' m') := by
  induction fuel generalizing w m m' fuel' with
  | zero =>
    cases fuel' with
    | zero => exact .outOfFuel
    | succ fuel' => exact .left rfl (hfuel.2.resolve_left (by omega))
  | succ fuel ih =>
    cases fuel' with
    | zero => exact .right rfl (hfuel.1.resolve_left (by omega))
    | succ fuel' =>
      rw [rounds_succ, rounds_succ]
      refine alike_bind law (hsub.evaluate he hm henv) fun hgrows hm₁ hv ↦ ?_
      rw [Value.Pairs.truthy hv]
      split
      · refine alike_bind law (hsub.execute hs hm₁ (law.frames hgrows henv))
          fun hgrows₂ hm₂ hflow ↦ ?_
        cases hflow with
        | normal =>
          refine ih ⟨hfuel.1.imp_left ?_, hfuel.2.imp_left ?_⟩ hm₂
            (law.frames hgrows₂ (law.frames hgrows henv)) <;> omega
        | returned hv => exact alike_pure law hm₂ (.returned hv)
      · exact alike_pure law hm₁ .normal

theorem alike_execute (law : P.Lawful) (hsub : P.Evaluators sub sub') {s s' : Stmt}
    (hs : P.Statements s s') {fuel fuel' : Nat}
    (hfuel : (fuel ≤ fuel' ∨ P.right none) ∧ (fuel' ≤ fuel ∨ P.left none))
    (hm : P.machines w m m') (henv : P.frames w env env') :
    P.Alike w P.flows (execute fuel sub s env m) (execute fuel' sub' s' env' m') := by
  cases hs with
  | expression he =>
    exact alike_bind law (hsub.evaluate he hm henv) fun _ hm₁ _ ↦ alike_pure law hm₁ .normal
  | print he =>
    refine alike_bind law (hsub.evaluate he hm henv) fun _ hm₁ hv ↦ ?_
    rw [Value.Pairs.text hv]
    exact alike_bind law (law.write _ hm₁) fun _ hm₂ _ ↦ alike_pure law hm₂ .normal
  | var hname he =>
    refine alike_bind law (alike_optional law hsub he hm henv) fun hgrows hm₁ hv ↦ ?_
    rw [hname]
    exact alike_bind law (law.define _ hm₁ (law.frames hgrows henv) hv) fun _ hm₂ _ ↦
      alike_pure law hm₂ .normal
  | block hbody =>
    refine alike_bind law (law.push _ _ hm henv) fun hgrows hm₁ hframe ↦ ?_
    exact law.releasing hframe (alike_executeAll law hsub hbody hm₁ hframe)
  | ifThen he hs =>
    refine alike_bind law (hsub.evaluate he hm henv) fun hgrows hm₁ hv ↦ ?_
    rw [Value.Pairs.truthy hv]
    split
    · exact hsub.execute hs hm₁ (law.frames hgrows henv)
    · exact alike_pure law hm₁ .normal
  | ifElse he hs ht =>
    refine alike_bind law (hsub.evaluate he hm henv) fun hgrows hm₁ hv ↦ ?_
    rw [Value.Pairs.truthy hv]
    split
    · exact hsub.execute hs hm₁ (law.frames hgrows henv)
    · exact hsub.execute ht hm₁ (law.frames hgrows henv)
  | loop he hs => exact alike_rounds law hsub he hs hfuel hm henv
  | function hr =>
    exact alike_bind law (alike_declareFunction law hr hm henv) fun _ hm₁ _ ↦
      alike_pure law hm₁ .normal
  | return_ he =>
    exact alike_bind law (alike_optional law hsub he hm henv) fun _ hm₁ hv ↦
      alike_pure law hm₁ (.returned hv)
  | class_ hname hs hrs =>
    exact alike_bind law (alike_declareClass law hname hs hrs hm henv) fun _ hm₁ _ ↦
      alike_pure law hm₁ .normal

theorem alike_runStatements (law : P.Lawful) (hsub : P.Evaluators sub sub') {ss ss' : List Stmt}
    (hss : List.Forall₂ P.stmts ss ss') (hm : P.machines w m m') :
    P.Alike w P.anything (Program.runStatements sub ss m)
      (Program.runStatements sub' ss' m') := by
  induction hss generalizing w m m' with
  | nil => exact alike_pure law hm trivial
  | cons hs _ ih =>
    refine alike_bind law (hsub.execute hs hm (law.globals hm)) fun hgrows hm₁ hflow ↦ ?_
    cases hflow with
    | normal => exact ih hm₁
    | returned hv =>
      dsimp only
      rw [Value.Pairs.text hv]
      exact alike_fail law hm₁ (law.internal trivial)

end Comparison

end Lox
