import Lox.Machine

/-!
How programs run. Each construct is described once, by what its parts do, and an evaluator
for a given fuel is that description around the evaluator for one unit less. Fuel bounds the
nesting of evaluations and the rounds of each loop, so it is not a limit of the language:
more fuel never changes what a finished run has answered.
-/

set_option autoImplicit false

namespace Lox

/-- How a statement ends: by running through, or by returning a value. -/
inductive Flow
  | normal
  | returned (value : Value)
deriving DecidableEq

/-- What a call makes of the end of its body. -/
def Flow.value : Flow → Value
  | .normal => .nil
  | .returned value => value

/-- What the callee of a call stands for: a value, or a method of a receiver. -/
inductive Target
  | value (value : Value)
  | method (f : Function) (receiver : Object)

structure Evaluator where
  evaluate : Expr → FrameId → Action Value
  execute : Stmt → FrameId → Action Flow

def Literal.value : Literal → Value
  | .number n => .number n
  | .string s => .string s
  | .true => .bool Bool.true
  | .false => .bool Bool.false
  | .nil => .nil

/-- Arguments that a callable value takes; none for any other value. -/
def Value.arity? : Value → Option Nat
  | .native f => some f.arity
  | .function _ f => some f.arity
  | .class_ c => some c.arity
  | _ => none

/-- What a native function answers. Only one of them looks at the clock; halving takes one
number. -/
def Native.answer (f : Native) (arguments : List Value) : Action (Except RuntimeError Value) :=
  match f, arguments with
  | .clock, _ => do return .ok (.number (← Action.now))
  | .pi, _ => pure (.ok (.number Native.piValue))
  | .iel, _ => pure (.ok (.string Native.ielText))
  | .div, [.number n] => pure (.ok (.number (n.div Native.two)))
  | .div, _ => pure (.error .nativeOperands)

namespace Evaluation

def unary (op : UnaryOp) (line : Nat) (operand : Value) : Action Value :=
  match op, operand with
  | .not, v => pure (.bool !v.truthy)
  | .negate, .number n => pure (.number n.neg)
  | .negate, _ => .failAt line .negatedOperand

/-- Operators on two numbers; addition and the equalities take other operands too. -/
def numeric (op : BinaryOp) (a b : Number) : Value :=
  match op with
  | .add => .number (a.add b)
  | .subtract => .number (a.sub b)
  | .multiply => .number (a.mul b)
  | .divide => .number (a.div b)
  | .greater => .bool (b.less a)
  | .greaterEqual => .bool (b.lessOrEqual a)
  | .less => .bool (a.less b)
  | .lessEqual => .bool (a.lessOrEqual b)
  | .equal => .bool (a.same b)
  | .notEqual => .bool !a.same b

def binary (op : BinaryOp) (line : Nat) (left right : Value) : Action Value :=
  match op, left, right with
  | .equal, a, b => pure (.bool (a.same b))
  | .notEqual, a, b => pure (.bool !a.same b)
  | op, .number a, .number b => pure (numeric op a b)
  | .add, .string a, .string b => pure (.string (a ++ b))
  | .add, _, _ => .failAt line .addedOperands
  | op, _, _ => .failAt line (.numericOperands op)

/-- Whether the left operand of a logical operator decides. -/
def decides (op : LogicalOp) (left : Value) : Bool :=
  match op with
  | .or => left.truthy
  | .and => !left.truthy

/-- A name at its distance, or else a global. -/
def lookUp (id : NodeId) (name : String) (line : Nat) (env : FrameId) : Action Value := do
  match ← Action.distance? id with
  | some distance => .getAt env distance name
  | none => .get Arena.globals name line

def store (id : NodeId) (name : Name) (value : Value) (env : FrameId) : Action Unit := do
  match ← Action.distance? id with
  | some distance => .assignAt env distance name.text value
  | none => .assign Arena.globals name.text value name.line

/-- The method with a frame of its own that holds its receiver. -/
def bindMethod (f : Function) (receiver : Object) : Action Function := do
  let env ← Action.push (.receiver f.routine) f.closure
  Action.define env "this" (.object receiver)
  pure { f with closure := env }

/-- A method becomes a function that keeps its receiver. -/
def Target.toValue : Target → Action Value
  | .value v => pure v
  | .method f receiver => do
    let bound ← bindMethod f receiver
    Action.capture bound.closure
    return .function (← Action.fresh) bound

/-- A property of a value: of an object, a field, or else a method of its class. -/
def property (v : Value) (name : Name) : Action Target :=
  match v with
  | .object o => do
    match ← Action.field? o name.text, o.class_.method? name.text with
    | some value, _ => pure (.value value)
    | none, some f => pure (.method f o)
    | none, none => .failAt name.line (.undefinedProperty name.text)
  | _ => .failAt name.line .propertyOfOther

/-- A method of the extended class, for the receiver at hand. The frame that holds the class
is the one around the frame that holds the receiver. -/
def superMethod (id : NodeId) (method : Name) (env : FrameId) : Action Target := do
  match ← Action.distance? id with
  | none => .fail (.internal (.unresolvedSuper method.line))
  | some distance =>
    match ← Action.getAt env distance "super" with
    | .class_ c =>
      match distance with
      | 0 => .fail (.internal .superWithoutThis)
      | inner + 1 =>
        match ← Action.getAt env inner "this" with
        | .object o =>
          match c.method? method.text with
          | some f => pure (.method f o)
          | none => .failAt method.line (.undefinedProperty method.text)
        | _ => .fail (.internal .thisNotObject)
    | _ => .fail (.internal .superNotClass)

/-- What a callee stands for. A method that is called at once is not bound yet. -/
def target (sub : Evaluator) (callee : Expr) (env : FrameId) : Action Target :=
  match callee with
  | .get object name => do property (← sub.evaluate object env) name
  | .super id _ method => superMethod id method env
  | other => do return .value (← sub.evaluate other env)

def evaluateAll (sub : Evaluator) (env : FrameId) : List Expr → Action (List Value)
  | [] => pure []
  | e :: es => do
    let value ← sub.evaluate e env
    let values ← evaluateAll sub env es
    return value :: values

/-- Statements in order, up to the first that returns. -/
def executeAll (sub : Evaluator) (env : FrameId) : List Stmt → Action Flow
  | [] => pure .normal
  | s :: ss => do
    match ← sub.execute s env with
    | .normal => executeAll sub env ss
    | .returned value => pure (.returned value)

/-- Parameters take the arguments in order. A missing argument leaves its parameter out, and
an argument too many is dropped. -/
def defineParameters (env : FrameId) : List Name → List Value → Action Unit
  | name :: names, value :: values => do
    Action.define env name.text value
    defineParameters env names values
  | _, _ => pure ()

def callFunction (sub : Evaluator) (f : Function) (arguments : List Value) : Action Value := do
  let env ← Action.push (.call f.routine) f.closure
  let flow ← Action.releasing env do
    defineParameters env f.routine.parameters arguments
    executeAll sub env f.routine.body
  if f.isInitializer then Action.getAt f.closure 0 "this" else pure flow.value

/-- Calls a method without keeping it: the frame of its receiver goes when the call ends. -/
def invoke (sub : Evaluator) (f : Function) (receiver : Object) (arguments : List Value) :
    Action Value := do
  let bound ← bindMethod f receiver
  Action.releasing bound.closure (callFunction sub bound arguments)

/-- Makes an object and has the initializer, if there is one, set it up. -/
def instantiate (sub : Evaluator) (c : Class) (arguments : List Value) : Action Value := do
  let o ← Action.newObject c
  match c.method? initializerName with
  | some f => do
    let _ ← invoke sub f o arguments
    pure (.object o)
  | none => pure (.object o)

/-- Calls a value with whatever arguments are given. -/
def callValue (sub : Evaluator) (v : Value) (line : Nat) (arguments : List Value) :
    Action Value :=
  match v with
  | .native f => do
    match ← f.answer arguments with
    | .ok value => pure value
    | .error cause => .failAt line cause
  | .function _ f => callFunction sub f arguments
  | .class_ c => instantiate sub c arguments
  | _ => .failAt line .notCallable

def checkArity (line expected given : Nat) : Action Unit :=
  if expected = given then pure () else .failAt line (.argumentCount expected given)

def callTarget (sub : Evaluator) (t : Target) (line : Nat) (arguments : List Value) :
    Action Value :=
  match t with
  | .method f receiver => do
    checkArity line f.arity arguments.length
    invoke sub f receiver arguments
  | .value v =>
    match v.arity? with
    | none => .failAt line .notCallable
    | some arity => do
      checkArity line arity arguments.length
      callValue sub v line arguments

def evaluate (sub : Evaluator) (e : Expr) (env : FrameId) : Action Value :=
  match e with
  | .literal value => pure value.value
  | .grouping inner => sub.evaluate inner env
  | .unary op line operand => do unary op line (← sub.evaluate operand env)
  | .binary op line left right => do
    let a ← sub.evaluate left env
    let b ← sub.evaluate right env
    binary op line a b
  | .logical op _ left right => do
    let a ← sub.evaluate left env
    if decides op a then pure a else sub.evaluate right env
  | .var id name => lookUp id name.text name.line env
  | .assign id name value => do
    let v ← sub.evaluate value env
    store id name v env
    return v
  | .call callee line arguments => do
    let t ← target sub callee env
    let values ← evaluateAll sub env arguments
    callTarget sub t line values
  | .get object name => do
    let t ← property (← sub.evaluate object env) name
    Target.toValue t
  | .set object name value => do
    match ← sub.evaluate object env with
    | .object o => do
      let v ← sub.evaluate value env
      Action.setField o name.text v
      return v
    | _ => .failAt name.line .fieldOfOther
  | .this id line => lookUp id "this" line env
  | .super id _ method => do Target.toValue (← superMethod id method env)

def optional (sub : Evaluator) (env : FrameId) : Option Expr → Action Value
  | none => pure .nil
  | some e => sub.evaluate e env

/-- Repeats a body while a test holds, for at most so many rounds. -/
def rounds (test : Action Value) (body : Action Flow) : Nat → Action Flow
  | 0 => .outOfFuel
  | fuel + 1 => fun m ↦
    match test m with
    | .outOfFuel => .outOfFuel
    | .failed cause m => .failed cause m
    | .done v m =>
      if v.truthy then
        match body m with
        | .done .normal m => rounds test body fuel m
        | other => other
      else .done .normal m

/-- A routine becomes a function where it stands, which captures the frames around it. -/
def declareFunction (r : Routine) (env : FrameId) : Action Unit := do
  Action.capture env
  let id ← Action.fresh
  Action.define env r.name.text (.function id ⟨r, env, false⟩)

def superclassValue (env : FrameId) : Option Superclass → Action (Option Class)
  | none => pure none
  | some s => do
    match ← lookUp s.id s.name.text s.name.line env with
    | .class_ c => pure (some c)
    | _ => .failAt s.name.line .superclassNotClass

/-- The frame of the methods of a class: one of its own if it has to hold the class that is
extended. -/
def methodFrame (name : Name) (methods : List Routine) (env : FrameId) :
    Option Class → Action FrameId
  | none => pure env
  | some parent => do
    let scope ← Action.push (.extension name methods) env
    Action.define scope "super" (.class_ parent)
    return scope

/-- Of several methods with one name the last counts. -/
def methodTable (methods : List Routine) (env : FrameId) : Bindings String Function :=
  .ofList (methods.map fun r ↦ (r.name.text, ⟨r, env, decide (r.name.text = initializerName)⟩))

/-- The name of a class is there, as nil, before the class is. -/
def declareClass (name : Name) (superclass : Option Superclass) (methods : List Routine)
    (env : FrameId) : Action Unit := do
  let parent ← superclassValue env superclass
  Action.define env name.text .nil
  let frame ← methodFrame name methods env parent
  Action.capture frame
  let id ← Action.fresh
  let ancestors := match parent with
    | none => []
    | some c => c.layers
  let class_ : Class := ⟨⟨id, name.text, methodTable methods frame⟩, ancestors⟩
  Action.assign env name.text (.class_ class_) name.line

def execute (fuel : Nat) (sub : Evaluator) (s : Stmt) (env : FrameId) : Action Flow :=
  match s with
  | .expression value => do
    let _ ← sub.evaluate value env
    return .normal
  | .print value => do
    let v ← sub.evaluate value env
    Action.write (v.text ++ "\n")
    return .normal
  | .var name initial => do
    let v ← optional sub env initial
    Action.define env name.text v
    return .normal
  | .block body => do
    let scope ← Action.push (.block body) env
    Action.releasing scope (executeAll sub scope body)
  | .ifThen test consequent => do
    let v ← sub.evaluate test env
    if v.truthy then sub.execute consequent env else return .normal
  | .ifElse test consequent alternative => do
    let v ← sub.evaluate test env
    if v.truthy then sub.execute consequent env else sub.execute alternative env
  | .loop test body => rounds (sub.evaluate test env) (sub.execute body env) fuel
  | .function r => do
    declareFunction r env
    return .normal
  | .return_ _ value => do
    let v ← optional sub env value
    return .returned v
  | .class_ name superclass methods => do
    declareClass name superclass methods env
    return .normal

end Evaluation

/-- The evaluator with so much fuel. -/
def evaluator : Nat → Evaluator
  | 0 => ⟨fun _ _ ↦ .outOfFuel, fun _ _ ↦ .outOfFuel⟩
  | fuel + 1 =>
    ⟨fun e env m ↦ Evaluation.evaluate (evaluator fuel) e env m,
      fun s env m ↦ Evaluation.execute fuel (evaluator fuel) s env m⟩

end Lox
