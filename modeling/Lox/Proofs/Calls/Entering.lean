import Lox.Proofs.Reclamation.Settling
import Lox.Proofs.Scope.Setting

/-!
How calls begin. A call opens a frame in which each parameter has its argument, and then runs the
body; a method is first given a frame that holds its receiver. The machines at which this leaves
one are written down, so that the rest of the call can be spoken of by itself.
-/

set_option autoImplicit false

namespace Lox

variable {α : Type}

namespace Arena

variable {a : Arena α} {id : FrameId} {f : Frame α}

theorem setFrame_setFrame (a : Arena α) (id : FrameId) (f g : Frame α) :
    (a.setFrame id f).setFrame id g = a.setFrame id g := by
  simp [setFrame]

theorem nextFrame_setFrame (a : Arena α) (id : FrameId) (f : Frame α) :
    (a.setFrame id f).nextFrame = a.nextFrame := by
  simp [nextFrame, setFrame]

theorem setFrame_of_frame? (h : a.frame? id = some f) : a.setFrame id f = a := by
  have hslot := frame?_eq_some_iff.1 h
  obtain ⟨hlt, hget⟩ := Array.getElem?_eq_some_iff.1 hslot
  obtain ⟨slots, free, retains⟩ := a
  simp only [setFrame, Arena.mk.injEq, and_true]
  refine Array.ext (by simp) fun i hi hi' ↦ ?_
  rw [Array.getElem_setIfInBounds (by simpa using hi')]
  split
  next heq => exact heq ▸ hget.symm
  next => rfl

end Arena

/-- A machine in which a frame has just been opened that holds these values. -/
def Machine.openedWith (m : Machine) (origin : Origin) (enclosing : FrameId)
    (values : Bindings String Value) : Machine :=
  { m.pushed origin enclosing with
    arena := (m.arena.push enclosing).setFrame m.arena.nextFrame
      ⟨values, some enclosing, false⟩ }

/-- The machine on which the body of a function runs: each parameter has its argument. -/
def Machine.entered (m : Machine) (f : Function) (args : List Value) : Machine :=
  m.openedWith (.call f.routine) f.closure
    (.ofList (f.routine.parameterNames.zip args))

/-- The machine on which a method is called: a frame holds its receiver. -/
def Machine.received (m : Machine) (f : Function) (o : Object) : Machine :=
  m.openedWith (.receiver f.routine) f.closure (Bindings.empty.insert "this" (.object o))

namespace Machine.Filed

variable {m : Machine}

theorem settles_openedWith (h : m.Filed) (origin : Origin) (enclosing : FrameId)
    (values : Bindings String Value) :
    (m.pushed origin enclosing).Settles (m.openedWith origin enclosing values) :=
  (h.pushed origin enclosing).settles_setFrame (h.frame?_pushed enclosing) values

theorem frame?_openedWith (h : m.Filed) (origin : Origin) (enclosing : FrameId)
    (values : Bindings String Value) (k : FrameId) :
    (m.openedWith origin enclosing values).arena.frame? k =
      if k = m.arena.nextFrame then some ⟨values, some enclosing, false⟩
      else m.arena.frame? k := by
  refine (Arena.frame?_setFrame _ (h.frame?_pushed enclosing) k).trans ?_
  split
  next => rfl
  next hne => exact (h.arena.frame?_push enclosing k).trans (if_neg hne)

theorem live_openedWith (h : m.Filed) (origin : Origin) (enclosing : FrameId)
    (values : Bindings String Value) :
    (m.openedWith origin enclosing values).arena.Live m.arena.nextFrame :=
  ⟨_, (h.frame?_openedWith origin enclosing values _).trans (if_pos rfl)⟩

theorem valueIn?_openedWith (h : m.Filed) (origin : Origin) (enclosing : FrameId)
    (values : Bindings String Value) (x : String) :
    (m.openedWith origin enclosing values).arena.valueIn? m.arena.nextFrame x = values.find? x := by
  unfold Arena.valueIn?
  rw [h.frame?_openedWith, if_pos rfl]
  rfl

end Machine.Filed

namespace Evaluation

open Lox.Action

variable {m : Machine} {frame : FrameId} {g : Frame Value}

theorem defineParameters_apply (h : m.arena.frame? frame = some g) (names : List Name)
    (args : List Value) :
    defineParameters frame names args m = .done () { m with
      arena := m.arena.setFrame frame
        { g with values := g.values.merge ⟨(names.map Name.text).zip args⟩ } } := by
  induction names generalizing args m g with
  | nil =>
    have hsame : m.arena.setFrame frame g = m.arena := Arena.setFrame_of_frame? h
    change Outcome.done () m = .done () { m with arena := m.arena.setFrame frame g }
    rw [hsame]
  | cons name names ih =>
    cases args with
    | nil =>
      have hsame : m.arena.setFrame frame g = m.arena := Arena.setFrame_of_frame? h
      change Outcome.done () m = .done () { m with arena := m.arena.setFrame frame g }
      rw [hsame]
    | cons v args =>
      change (define frame name.text v >>= fun _ ↦ defineParameters frame names args) m = _
      rw [bind_apply, define_eq h]
      have hbound := Arena.frame?_bind name.text v h frame
      rw [if_pos rfl] at hbound
      change defineParameters frame names args
        { m with arena := m.arena.bind frame g name.text v } = _
      rw [ih (m := { m with arena := m.arena.bind frame g name.text v }) hbound]
      simp only [Arena.bind, Arena.setFrame_setFrame, List.map_cons, List.zip_cons_cons,
        Bindings.merge_cons]

/-- What is left of a call once the parameters have their arguments. -/
def callBody (sub : Evaluator) (f : Function) (frame : FrameId) : Action Value := do
  let flow ← releasing frame (executeAll sub frame f.routine.body)
  if f.isInitializer then getAt f.closure 0 "this" else return flow.value

theorem callFunction_apply (h : m.Filed) (sub : Evaluator) (f : Function) (args : List Value) :
    callFunction sub f args m = callBody sub f m.arena.nextFrame (m.entered f args) := by
  have hdefine := defineParameters_apply (m := m.pushed (.call f.routine) f.closure)
    (h.frame?_pushed f.closure) f.routine.parameters args
  have hbody : (push (.call f.routine) f.closure >>= fun frame ↦ releasing frame
      (defineParameters frame f.routine.parameters args >>= fun _ ↦
        executeAll sub frame f.routine.body)) m =
      releasing m.arena.nextFrame (executeAll sub m.arena.nextFrame f.routine.body)
        (m.entered f args) := by
    change releasing m.arena.nextFrame (defineParameters m.arena.nextFrame _ args >>= fun _ ↦ _)
      (m.pushed (.call f.routine) f.closure) = _
    simp only [releasing, bind_apply, hdefine]
    rfl
  rw [callFunction_eq, bind_apply, hbody]
  rfl

theorem invoke_received (h : m.Filed) (sub : Evaluator) (f : Function) (o : Object)
    (args : List Value) :
    invoke sub f o args m = releasing m.arena.nextFrame
      (callFunction sub { f with closure := m.arena.nextFrame } args) (m.received f o) := by
  rw [invoke_eq, opening_apply (h.frame?_pushed f.closure)]
  rfl

/-- The function takes so many arguments, and its body runs in a frame in which every parameter has
the argument in its place; of parameters with one name the last counts. -/
structure RunsWith (sub : Evaluator) (f : Function) (args : List Value) (m : Machine) : Prop where
  count : f.routine.parameters.length = args.length
  body : callFunction sub f args m = callBody sub f m.arena.nextFrame (m.entered f args)
  parameters : ∀ (i : Nat) x v, f.routine.parameterNames[i]? = some x → args[i]? = some v →
    (∀ j, i < j → f.routine.parameterNames[j]? ≠ some x) →
    (m.entered f args).arena.valueIn? m.arena.nextFrame x = some v

/-- The method runs so in a frame that holds the object, which is released in the end. -/
structure InvokesWith (sub : Evaluator) (f : Function) (o : Object) (args : List Value)
    (m : Machine) : Prop where
  receiver : (m.received f o).arena.valueIn? m.arena.nextFrame "this" = some (.object o)
  call : invoke sub f o args m = releasing m.arena.nextFrame
    (callFunction sub { f with closure := m.arena.nextFrame } args) (m.received f o)
  runs : RunsWith sub { f with closure := m.arena.nextFrame } args (m.received f o)

theorem runsWith (h : m.Filed) (sub : Evaluator) {f : Function} {args : List Value}
    (hcount : f.routine.parameters.length = args.length) : RunsWith sub f args m where
  count := hcount
  body := callFunction_apply h sub f args
  parameters i x v hx hv hlast := by
    refine (h.valueIn?_openedWith _ _ _ x).trans ?_
    refine Bindings.find?_merge_of_last (i := i) (List.getElem?_zip_eq_some.2 ⟨hx, hv⟩) ?_ .empty
    rintro j hj e he rfl
    exact hlast j hj (List.getElem?_zip_eq_some.1 he).1

theorem invokesWith (h : m.Filed) (sub : Evaluator) {f : Function} (o : Object) {args : List Value}
    (hcount : f.routine.parameters.length = args.length) : InvokesWith sub f o args m where
  receiver := (h.valueIn?_openedWith _ _ _ _).trans (by simp)
  call := invoke_received h sub f o args
  runs := runsWith (h.settles_openedWith _ _ _).filed sub hcount

theorem openCaptured_apply (h : m.Filed) (origin : Origin) (enclosing : FrameId) (x : String)
    (v : Value) :
    openCaptured origin enclosing x v m = .done m.arena.nextFrame
      { m.openedWith origin enclosing (Bindings.empty.insert x v) with
        arena := (m.openedWith origin enclosing (Bindings.empty.insert x v)).arena.capture
          m.arena.nextFrame } := by
  rw [openCaptured, opening_apply (h.frame?_pushed enclosing)]
  rfl

theorem toValue_received (h : m.Filed) (f : Function) (o : Object) :
    Target.toValue (.method f o) m =
      .done (.function m.nextId { f with closure := m.arena.nextFrame }) { m.received f o with
        arena := (m.received f o).arena.capture m.arena.nextFrame
        nextId := m.nextId + 1 } := by
  rw [toValue_method, bind_apply, openCaptured_apply h]
  rfl

end Evaluation

end Lox
