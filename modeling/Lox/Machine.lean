import Lox.Native
import Lox.Resolution.Scopes
import Lox.Sink

/-!
State of a running program, and actions on it. An action ends with an answer or with a
failure, in either case with the state it has come to, or it runs out of fuel.
-/

set_option autoImplicit false

namespace Lox

/-- A clock, by the milliseconds since the beginning of 1970 that it shows at its first reading,
its second one, and so on. Nothing is asked of them: a clock may stand still, leap, or be set
back. -/
structure Clock where
  shows : Nat → Int64
  readings : Nat

namespace Clock

def thousand : Number := Number.ofDigits 1000 0

/-- Seconds shown. -/
def now (c : Clock) : Number := (Number.ofInt (c.shows c.readings)).div thousand

def tick (c : Clock) : Clock := { c with readings := c.readings + 1 }

/-- A clock that has stopped at the beginning of 1970. -/
def stopped : Clock := ⟨fun _ ↦ 0, 0⟩

end Clock

/-- What a frame is made for. -/
inductive Origin
  | program
  | block (body : List Stmt)
  | call (r : Routine)
  | receiver (r : Routine)
  | extension (name : Name) (methods : List Routine)

/-- The fields of each object stand at its identity; `nextId` is the identity of the next
function or class. What the frame in each slot was made for is kept in `origins`, to be
reasoned about: nothing that runs depends on it. -/
structure Machine where
  arena : Arena Value
  origins : Array Origin
  fields : Array (Bindings String Value)
  distances : Distances
  nextId : Nat
  sink : Sink
  clock : Clock

/-- Notes what the frame in a slot, used before or new, is made for. -/
def noteOrigin (origins : Array Origin) (id : FrameId) (origin : Origin) : Array Origin :=
  if id.slot < origins.size then origins.setIfInBounds id.slot origin else origins.push origin

/-- A machine before its first program. -/
def Machine.initial (sink : Sink) (clock : Clock) : Machine where
  arena := .ofGlobals Native.bindings
  origins := #[.program]
  fields := #[]
  distances := .empty
  nextId := 0
  sink := sink
  clock := clock

/-- Adds distances. New ones win over old ones of the same expression. -/
def Machine.install (m : Machine) (distances : Distances) : Machine :=
  { m with distances := m.distances.merge distances }

inductive Outcome (α : Type)
  | outOfFuel
  | failed (cause : Failure) (m : Machine)
  | done (answer : α) (m : Machine)

def Action (α : Type) := Machine → Outcome α

namespace Action

variable {α β : Type}

@[always_inline, inline] def pure (a : α) : Action α := fun m ↦ .done a m

@[always_inline, inline] def bind (x : Action α) (f : α → Action β) : Action β := fun m ↦
  match x m with
  | .outOfFuel => .outOfFuel
  | .failed cause m => .failed cause m
  | .done a m => f a m

@[always_inline, inline] instance : Monad Action where
  pure := pure
  bind := bind

def outOfFuel : Action α := fun _ ↦ .outOfFuel

def fail (cause : Failure) : Action α := fun m ↦ .failed cause m

/-- Stops with a runtime error on the given line. -/
def failAt (line : Nat) (cause : RuntimeError) : Action α := fail (.runtime line cause)

def faultOf (fault : Arena.Fault) : Action α := fail (.internal (.frame fault))

/-- Makes a failure an answer. -/
def attempt (x : Action α) : Action (Except Failure α) := fun m ↦
  match x m with
  | .outOfFuel => .outOfFuel
  | .failed cause m => .done (.error cause) m
  | .done a m => .done (.ok a) m

/-- Runs an action and then releases a frame, however the action ends. -/
def releasing (frame : FrameId) (x : Action α) : Action α := fun m ↦
  match x m with
  | .outOfFuel => .outOfFuel
  | .failed cause m => .failed cause { m with arena := m.arena.release frame }
  | .done a m => .done a { m with arena := m.arena.release frame }

/-- Makes a frame inside another one. -/
def push (origin : Origin) (enclosing : FrameId) : Action FrameId := fun m ↦
  .done m.arena.nextFrame
    { m with
      arena := m.arena.push enclosing
      origins := noteOrigin m.origins m.arena.nextFrame origin }

def capture (frame : FrameId) : Action Unit := fun m ↦
  .done () { m with arena := m.arena.capture frame }

def define (frame : FrameId) (name : String) (value : Value) : Action Unit := fun m ↦
  match m.arena.frame frame with
  | .ok f => .done () { m with arena := m.arena.bind frame f name value }
  | .error fault => faultOf fault m

def getAt (frame : FrameId) (distance : Nat) (name : String) : Action Value := fun m ↦
  match m.arena.getAt frame distance name with
  | .ok value => .done value m
  | .error fault => faultOf fault m

def assignAt (frame : FrameId) (distance : Nat) (name : String) (value : Value) : Action Unit :=
  fun m ↦
    match m.arena.holderAt frame distance name with
    | .ok target => define target name value m
    | .error fault => faultOf fault m

/-- The nearest binding of a name, from a frame outwards. -/
def get (frame : FrameId) (name : String) (line : Nat) : Action Value := fun m ↦
  match m.arena.get frame name with
  | .ok (some value) => .done value m
  | .ok none => failAt line (.undefinedVariable name) m
  | .error fault => faultOf fault m

def assign (frame : FrameId) (name : String) (value : Value) (line : Nat) : Action Unit :=
  fun m ↦
    match m.arena.holder frame name with
    | .ok (some target) => define target name value m
    | .ok none => failAt line (.undefinedVariable name) m
    | .error fault => faultOf fault m

/-- Distance of an expression; none if its name is global. -/
def distance? (id : NodeId) : Action (Option Nat) := fun m ↦ .done (m.distances.find? id) m

/-- A new identity for a function or a class. -/
def fresh : Action Nat := fun m ↦ .done m.nextId { m with nextId := m.nextId + 1 }

/-- A new object, without fields. -/
def newObject (class_ : Class) : Action Object := fun m ↦
  .done ⟨m.fields.size, class_⟩ { m with fields := m.fields.push .empty }

def field? (o : Object) (name : String) : Action (Option Value) := fun m ↦
  .done (m.fields[o.id]?.bind fun fields ↦ fields.find? name) m

def setField (o : Object) (name : String) (value : Value) : Action Unit := fun m ↦
  .done () { m with fields := m.fields.modify o.id fun fields ↦ fields.insert name value }

/-- Reads the clock. -/
def now : Action Number := fun m ↦ .done m.clock.now { m with clock := m.clock.tick }

def write (text : String) : Action Unit := fun m ↦
  let written := m.sink.write text
  let after := { m with sink := written.2 }
  if written.1 then .done () after else .failed .sinkFull after

end Action

end Lox
