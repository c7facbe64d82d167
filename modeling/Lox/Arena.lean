import Lox.Bindings

/-!
Frames of variables, in numbered slots. A frame is released when its block or call ends,
unless something that may outlive it has captured it; the slot released last is the first to
be used again. Slot zero holds the global frame, which is captured from the start. An arena
that retains frees no slot, which is what releasing has to be indistinguishable from.
-/

set_option autoImplicit false

namespace Lox

structure FrameId where
  slot : Nat
deriving DecidableEq

structure Frame (α : Type) where
  values : Bindings String α
  enclosing : Option FrameId
  captured : Bool
deriving DecidableEq

structure Arena (α : Type) where
  slots : Array (Option (Frame α))
  free : List FrameId
  retains : Bool
deriving DecidableEq

namespace Arena

/-- What goes wrong with a frame only if distances and frames do not fit each other. -/
inductive Fault
  | dangling (frame : FrameId)
  | shortChain (start : FrameId) (distance : Nat)
  | unbound (name : String) (distance : Nat) (start : FrameId)
  | unassignable (name : String) (distance : Nat) (start : FrameId)
  | endlessChain (start : FrameId)
deriving DecidableEq

variable {α : Type}

def globals : FrameId := ⟨0⟩

def ofGlobals (values : Bindings String α) : Arena α :=
  ⟨#[some ⟨values, none, true⟩], [], false⟩

/-- The same arena, retaining every frame from now on. -/
def retaining (a : Arena α) : Arena α := { a with retains := true }

/-- The live frame in a slot. -/
def frame? (a : Arena α) (id : FrameId) : Option (Frame α) := a.slots[id.slot]?.join

def frame (a : Arena α) (id : FrameId) : Except Fault (Frame α) :=
  match a.frame? id with
  | some f => .ok f
  | none => .error (.dangling id)

def setFrame (a : Arena α) (id : FrameId) (f : Frame α) : Arena α :=
  { a with slots := a.slots.setIfInBounds id.slot (some f) }

/-- Number of live frames. -/
def liveCount (a : Arena α) : Nat := a.slots.size - a.free.length

/-- The frame that the next push makes: in the slot released last, or else in a new slot. -/
def nextFrame (a : Arena α) : FrameId :=
  match a.free with
  | id :: _ => id
  | [] => ⟨a.slots.size⟩

/-- A new frame without values, inside another one. -/
def push (a : Arena α) (enclosing : FrameId) : Arena α :=
  let f : Frame α := ⟨.empty, some enclosing, false⟩
  match a.free with
  | id :: rest => { a with slots := a.slots.setIfInBounds id.slot (some f), free := rest }
  | [] => { a with slots := a.slots.push (some f) }

/-- Captures at most `steps` frames, from `id` outwards up to one that is captured. -/
def captureFrom : Nat → Arena α → FrameId → Arena α
  | 0, a, _ => a
  | steps + 1, a, id =>
    match a.frame? id with
    | none => a
    | some f =>
      if f.captured then a
      else
        let marked := a.setFrame id { f with captured := true }
        match f.enclosing with
        | none => marked
        | some outer => captureFrom steps marked outer

/-- Keeps a frame and those around it for good. Each step captures another frame, so there
are no more steps than slots. -/
def capture (a : Arena α) (id : FrameId) : Arena α := captureFrom a.slots.size a id

/-- Frees the slot of a frame that nothing has captured. -/
def release (a : Arena α) (id : FrameId) : Arena α :=
  match a.frame? id with
  | none => a
  | some f =>
    if f.captured || a.retains then a
    else { a with slots := a.slots.setIfInBounds id.slot none, free := id :: a.free }

/-- Sets a name in a frame, whose present content is given. -/
def bind (a : Arena α) (id : FrameId) (f : Frame α) (name : String) (value : α) : Arena α :=
  a.setFrame id { f with values := f.values.insert name value }

def define (a : Arena α) (id : FrameId) (name : String) (value : α) : Except Fault (Arena α) :=
  match a.frame id with
  | .error fault => .error fault
  | .ok f => .ok (a.bind id f name value)

/-- The nearest frame with the name, within so many steps from `id` outwards. -/
def holderFrom (a : Arena α) (start : FrameId) (name : String) :
    Nat → FrameId → Except Fault (Option FrameId)
  | 0, _ => .error (.endlessChain start)
  | steps + 1, id =>
    match a.frame id with
    | .error fault => .error fault
    | .ok f =>
      if f.values.contains name then .ok (some id)
      else
        match f.enclosing with
        | none => .ok none
        | some outer => holderFrom a start name steps outer

/-- The nearest frame with the name. A chain that does not loop has fewer frames than the
steps allowed. -/
def holder (a : Arena α) (id : FrameId) (name : String) : Except Fault (Option FrameId) :=
  holderFrom a id name (a.slots.size + 1) id

/-- Value of a name in a frame, if both are there. -/
def valueIn? (a : Arena α) (id : FrameId) (name : String) : Option α :=
  (a.frame? id).bind fun f ↦ f.values.find? name

/-- Value of the nearest binding; none if no frame of the chain has the name. -/
def get (a : Arena α) (id : FrameId) (name : String) : Except Fault (Option α) :=
  (a.holder id name).map fun found ↦ found.bind fun holder ↦ a.valueIn? holder name

/-- Sets the nearest binding; none if no frame of the chain has the name. -/
def assign (a : Arena α) (id : FrameId) (name : String) (value : α) :
    Except Fault (Option (Arena α)) :=
  match a.holder id name with
  | .error fault => .error fault
  | .ok none => .ok none
  | .ok (some holder) => (a.define holder name value).map some

/-- The frame `distance` links out from `id`, on a walk that began at `start`. -/
def ancestorFrom (a : Arena α) (start : FrameId) (total : Nat) :
    Nat → FrameId → Except Fault FrameId
  | 0, id => .ok id
  | distance + 1, id =>
    match a.frame id with
    | .error fault => .error fault
    | .ok f =>
      match f.enclosing with
      | none => .error (.shortChain start total)
      | some outer => ancestorFrom a start total distance outer

def ancestor (a : Arena α) (id : FrameId) (distance : Nat) : Except Fault FrameId :=
  ancestorFrom a id distance distance id

def getAt (a : Arena α) (id : FrameId) (distance : Nat) (name : String) : Except Fault α :=
  match a.ancestor id distance with
  | .error fault => .error fault
  | .ok target =>
    match a.frame target with
    | .error fault => .error fault
    | .ok f =>
      match f.values.find? name with
      | some value => .ok value
      | none => .error (.unbound name distance id)

/-- The frame at a distance, if it has the name. -/
def holderAt (a : Arena α) (id : FrameId) (distance : Nat) (name : String) :
    Except Fault FrameId :=
  match a.ancestor id distance with
  | .error fault => .error fault
  | .ok target =>
    match a.frame target with
    | .error fault => .error fault
    | .ok f =>
      if f.values.contains name then .ok target else .error (.unassignable name distance id)

def assignAt (a : Arena α) (id : FrameId) (distance : Nat) (name : String) (value : α) :
    Except Fault (Arena α) :=
  match a.holderAt id distance name with
  | .error fault => .error fault
  | .ok target => a.define target name value

end Arena

end Lox
