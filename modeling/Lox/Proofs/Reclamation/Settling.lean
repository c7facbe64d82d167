import Lox.Proofs.Reclamation.Sessions

/-!
No frame leaks, on whatever path an evaluation is left. Nothing is asked for that but a filed arena:
not that the distances fit, nor that the frame at hand is live, nor that what is captured lies in
what is captured. A stretch of a run settles if the frames that were live before it are live after
it and whatever is loose after it was loose before. Stretches compose; one that begins with a frame
of its own settles once that frame is released, or captured. So every construct settles, whichever
of its parts fails (`settles_evaluate`, `settles_execute`). Between the statements of a session
nothing is loose at all.
-/

set_option autoImplicit false

namespace Lox

variable {α β : Type} {m m₁ m₂ : Machine}

/-! ### Stretches that settle -/

namespace Machine

/-- The frames are filed, released when their time has come, and noted. -/
structure Filed (m : Machine) : Prop where
  arena : m.arena.Filed
  releases : m.arena.retains = false
  noted : m.origins.size = m.arena.slots.size

/-- What a stretch of a run leaves: the frames that were live, each where it was and made for what
it was, and no loose frame that was not loose before. -/
structure Settles (m m₁ : Machine) : Prop where
  filed : m₁.Filed
  continues : m.arena.Continues m₁.arena
  noted : ∀ k, m.arena.Live k → m₁.origins[k.slot]? = m.origins[k.slot]?

/-- A stretch that leaves the arena alone. -/
theorem Filed.settles_of_eq (h : m.Filed) (harena : m₁.arena = m.arena)
    (horigins : m₁.origins = m.origins) : m.Settles m₁ where
  filed := ⟨harena ▸ h.arena, harena ▸ h.releases, by rw [harena, horigins, h.noted]⟩
  continues := harena ▸ Arena.Continues.refl _
  noted k _ := by rw [horigins]

theorem Settles.trans (h : m.Settles m₁) (h' : m₁.Settles m₂) : m.Settles m₂ where
  filed := h'.filed
  continues := h.continues.trans h'.continues
  noted k hk := (h'.noted k (h.continues.live hk)).trans (h.noted k hk)

theorem Filed.settles_setFrame (h : m.Filed) {frame : FrameId} {f : Frame Value}
    (hf : m.arena.frame? frame = some f) (values : Bindings String Value) :
    m.Settles { m with arena := m.arena.setFrame frame { f with values := values } } where
  filed := ⟨h.arena.setFrame hf _, h.releases, h.noted.trans (by simp [Arena.setFrame])⟩
  continues := Arena.continues_setFrame values hf
  noted _ _ := rfl

theorem Filed.settles_bind (h : m.Filed) {frame : FrameId} {f : Frame Value}
    (hf : m.arena.frame? frame = some f) (name : String) (v : Value) :
    m.Settles { m with arena := m.arena.bind frame f name v } :=
  h.settles_setFrame hf _

theorem Filed.settles_capture (h : m.Filed) (frame : FrameId) :
    m.Settles { m with arena := m.arena.capture frame } := by
  obtain ⟨-, hsize, hretains⟩ := Arena.free_captureFrom m.arena.slots.size m.arena frame
  exact {
    filed := ⟨h.arena.capture frame, hretains.trans h.releases, h.noted.trans hsize.symm⟩
    continues := Arena.continues_capture _ _
    noted := fun _ _ ↦ rfl }

theorem Filed.free_lt (h : m.Filed) (id : FrameId) (hid : id ∈ m.arena.free) :
    id.slot < m.arena.slots.size :=
  ((h.arena.mem_free id).1 hid).1

theorem Filed.pushed (h : m.Filed) (origin : Origin) (enclosing : FrameId) :
    (m.pushed origin enclosing).Filed where
  arena := h.arena.push enclosing
  releases := (Arena.retains_push m.arena enclosing).trans h.releases
  noted := size_noteOrigin _ _ _ h.noted h.free_lt _

theorem Filed.noted_pushed (h : m.Filed) {origin : Origin} {enclosing : FrameId}
    (hlater : (m.pushed origin enclosing).Settles m₁) (k : FrameId) (hk : m.arena.Live k) :
    m₁.origins[k.slot]? = m.origins[k.slot]? := by
  have hstill : (m.pushed origin enclosing).arena.Live k :=
    (h.arena.live_push enclosing).2 (Or.inr hk)
  refine (hlater.noted k hstill).trans
    ((getElem?_noteOrigin _ _ _ h.noted h.free_lt k).trans (if_neg ?_))
  rintro rfl
  exact h.arena.not_live_nextFrame hk

/-- A frame opened before a stretch that settles is released after it. -/
theorem Filed.settles_release (h : m.Filed) {origin : Origin} {enclosing : FrameId}
    (hlater : (m.pushed origin enclosing).Settles m₁) :
    m.Settles { m₁ with arena := m₁.arena.release m.arena.nextFrame } where
  filed := ⟨hlater.filed.arena.release _,
    (Arena.retains_release _ _).trans hlater.filed.releases,
    hlater.filed.noted.trans (Arena.size_release _ _).symm⟩
  continues := h.arena.continues_release_opened hlater.filed.releases hlater.continues
  noted k hk := (h.noted_pushed hlater k hk :)

/-- A frame opened before a stretch that settles is captured after it. -/
theorem Filed.settles_capture_opened (h : m.Filed) {origin : Origin} {enclosing : FrameId}
    (hlater : (m.pushed origin enclosing).Settles m₁) :
    m.Settles { m₁ with arena := m₁.arena.capture m.arena.nextFrame } where
  filed := (hlater.filed.settles_capture _).filed
  continues := h.arena.continues_capture_opened hlater.continues
  noted k hk := (h.noted_pushed hlater k hk :)

theorem Filed.frame?_pushed (h : m.Filed) (enclosing : FrameId) :
    (m.arena.push enclosing).frame? m.arena.nextFrame = some ⟨.empty, some enclosing, false⟩ :=
  (h.arena.frame?_push enclosing _).trans (if_pos rfl)

theorem Filed.settles_opened (h : m.Filed) (origin : Origin) (enclosing : FrameId) (name : String)
    (v : Value) : (m.pushed origin enclosing).Settles (m.opened origin enclosing name v) :=
  (h.pushed origin enclosing).settles_bind (h.frame?_pushed enclosing) name v

end Machine

open Machine

/-- Whatever filed machine the action begins at, the stretch to its end settles, be the end an
answer or a failure. -/
def Action.Settles (x : Action α) : Prop :=
  ∀ m : Machine, m.Filed → (x m).Ends (fun _ ↦ m.Settles) fun _ ↦ m.Settles

structure Evaluator.Settles (sub : Evaluator) : Prop where
  evaluate : ∀ e env, (sub.evaluate e env).Settles
  execute : ∀ s env, (sub.execute s env).Settles

namespace Action

/-! ### Putting actions together -/

theorem settles_pure (a : α) : (Pure.pure a : Action α).Settles :=
  fun _ h ↦ h.settles_of_eq rfl rfl

theorem settles_fail (cause : Failure) : (fail cause : Action α).Settles :=
  fun _ h ↦ h.settles_of_eq rfl rfl

theorem settles_bind {x : Action α} {f : α → Action β} (hx : x.Settles)
    (hf : ∀ a, (f a).Settles) : (x >>= f).Settles := fun m h ↦
  ends_bind (hx m h) fun a m₁ hm₁ ↦
    (hf a m₁ hm₁.filed).imp (fun _ _ hm₂ ↦ hm₁.trans hm₂) fun _ _ hm₂ ↦ hm₁.trans hm₂

/-- What is done within a frame of its own, which is released at the end. -/
theorem settles_within {origin : Origin} {enclosing : FrameId} {x : FrameId → Action α}
    (hx : ∀ frame, (x frame).Settles) :
    (push origin enclosing >>= fun frame ↦ releasing frame (x frame)).Settles := by
  intro m h
  change (releasing _ _ (m.pushed origin enclosing)).Ends _ _
  exact ends_releasing ((hx _ _ (h.pushed origin enclosing)).imp
    (fun _ _ hlater ↦ h.settles_release hlater) fun _ _ hlater ↦ h.settles_release hlater)

/-- What is done within a frame that holds one name, and that is released at the end. -/
theorem settles_openReleased {origin : Origin} {enclosing : FrameId} {name : String} {v : Value}
    {x : FrameId → Action α} (hx : ∀ frame, (x frame).Settles) :
    (push origin enclosing >>= fun frame ↦ define frame name v >>= fun _ ↦
      releasing frame (x frame)).Settles := by
  intro m h
  have hopened := h.settles_opened origin enclosing name v
  rw [opening_apply (h.frame?_pushed enclosing)]
  exact ends_releasing ((hx _ _ hopened.filed).imp
    (fun _ _ hlater ↦ h.settles_release (hopened.trans hlater))
    fun _ _ hlater ↦ h.settles_release (hopened.trans hlater))

theorem settles_openCaptured (origin : Origin) (enclosing : FrameId) (name : String) (v : Value) :
    (openCaptured origin enclosing name v).Settles := by
  intro m h
  unfold openCaptured
  rw [opening_apply (h.frame?_pushed enclosing)]
  exact h.settles_capture_opened (h.settles_opened origin enclosing name v)

/-! ### Actions on machines -/

theorem settles_define (frame : FrameId) (name : String) (v : Value) :
    (define frame name v).Settles := by
  intro m h
  cases hf : m.arena.frame? frame with
  | none =>
    have hdead : define frame name v m = faultOf (.dangling frame) m := by
      simp [define, Arena.frame, hf]
    rw [hdead]
    exact settles_fail _ m h
  | some f =>
    rw [define_eq hf]
    exact h.settles_bind hf name v

theorem settles_capture (frame : FrameId) : (capture frame).Settles :=
  fun _ h ↦ h.settles_capture frame

theorem settles_getAt (frame : FrameId) (distance : Nat) (name : String) :
    (getAt frame distance name).Settles := by
  intro m h
  unfold getAt
  split
  · exact settles_pure _ m h
  · exact settles_fail _ m h

theorem settles_assignAt (frame : FrameId) (distance : Nat) (name : String) (v : Value) :
    (assignAt frame distance name v).Settles := by
  intro m h
  unfold assignAt
  split
  · exact settles_define _ _ _ m h
  · exact settles_fail _ m h

theorem settles_get (frame : FrameId) (name : String) (line : Nat) :
    (get frame name line).Settles := by
  intro m h
  unfold get
  split
  · exact settles_pure _ m h
  · exact settles_fail _ m h
  · exact settles_fail _ m h

theorem settles_assign (frame : FrameId) (name : String) (v : Value) (line : Nat) :
    (assign frame name v line).Settles := by
  intro m h
  unfold assign
  split
  · exact settles_define _ _ _ m h
  · exact settles_fail _ m h
  · exact settles_fail _ m h

theorem settles_distance? (id : NodeId) : (distance? id).Settles :=
  fun _ h ↦ h.settles_of_eq rfl rfl

theorem settles_fresh : fresh.Settles := fun _ h ↦ h.settles_of_eq rfl rfl

theorem settles_now : now.Settles := fun _ h ↦ h.settles_of_eq rfl rfl

theorem settles_newObject (c : Class) : (newObject c).Settles := fun _ h ↦ h.settles_of_eq rfl rfl

theorem settles_field? (o : Object) (name : String) : (field? o name).Settles :=
  fun _ h ↦ h.settles_of_eq rfl rfl

theorem settles_setField (o : Object) (name : String) (v : Value) : (setField o name v).Settles :=
  fun _ h ↦ h.settles_of_eq rfl rfl

theorem settles_write (text : String) : (write text).Settles := by
  intro m h
  unfold write
  dsimp only
  split
  · exact h.settles_of_eq rfl rfl
  · exact h.settles_of_eq rfl rfl

end Action

namespace Evaluation

open Lox.Action

variable {sub : Evaluator}

/-! ### Calls -/

theorem settles_evaluateAll (hsub : sub.Settles) (env : FrameId) (es : List Expr) :
    (evaluateAll sub env es).Settles := by
  induction es with
  | nil => exact settles_pure _
  | cons e es ih =>
    exact settles_bind (hsub.evaluate e env) fun v ↦ settles_bind ih fun vs ↦ settles_pure _

theorem settles_executeAll (hsub : sub.Settles) (env : FrameId) (ss : List Stmt) :
    (executeAll sub env ss).Settles := by
  induction ss with
  | nil => exact settles_pure _
  | cons s ss ih =>
    refine settles_bind (hsub.execute s env) fun flow ↦ ?_
    cases flow with
    | normal => exact ih
    | returned v => exact settles_pure _

theorem settles_defineParameters (env : FrameId) (names : List Name) (vs : List Value) :
    (defineParameters env names vs).Settles := by
  induction names generalizing vs with
  | nil => exact settles_pure _
  | cons name names ih =>
    cases vs with
    | nil => exact settles_pure _
    | cons v vs => exact settles_bind (settles_define env name.text v) fun _ ↦ ih vs

theorem settles_callFunction (hsub : sub.Settles) (f : Function) (args : List Value) :
    (callFunction sub f args).Settles := by
  rw [callFunction_eq]
  refine settles_bind (settles_within fun frame ↦ ?_) fun flow ↦ ?_
  · exact settles_bind (settles_defineParameters frame _ args) fun _ ↦
      settles_executeAll hsub frame _
  · split
    · exact settles_getAt _ _ _
    · exact settles_pure _

theorem settles_invoke (hsub : sub.Settles) (f : Function) (o : Object) (args : List Value) :
    (invoke sub f o args).Settles := by
  rw [invoke_eq]
  exact settles_openReleased fun frame ↦ settles_callFunction hsub _ args

theorem settles_toValue (t : Target) : (Target.toValue t).Settles := by
  cases t with
  | value v => exact settles_pure v
  | method f o =>
    rw [toValue_method]
    exact settles_bind (settles_openCaptured _ _ _ _) fun frame ↦
      settles_bind settles_fresh fun id ↦ settles_pure _

theorem settles_property (v : Value) (name : Name) : (property v name).Settles := by
  cases v with
  | object o =>
    refine settles_bind (settles_field? o name.text) fun value ↦ ?_
    split
    · exact settles_pure _
    · exact settles_pure _
    · exact settles_fail _
  | _ => exact settles_fail _

theorem settles_lookUp (id : NodeId) (name : String) (line : Nat) (env : FrameId) :
    (lookUp id name line env).Settles := by
  refine settles_bind (settles_distance? id) fun distance ↦ ?_
  cases distance with
  | none => exact settles_get _ _ _
  | some distance => exact settles_getAt _ _ _

theorem settles_store (id : NodeId) (name : Name) (v : Value) (env : FrameId) :
    (store id name v env).Settles := by
  refine settles_bind (settles_distance? id) fun distance ↦ ?_
  cases distance with
  | none => exact settles_assign _ _ _ _
  | some distance => exact settles_assignAt _ _ _ _

theorem settles_superMethod (id : NodeId) (method : Name) (env : FrameId) :
    (superMethod id method env).Settles := by
  refine settles_bind (settles_distance? id) fun distance ↦ ?_
  cases distance with
  | none => exact settles_fail _
  | some distance =>
    refine settles_bind (settles_getAt env distance "super") fun v ↦ ?_
    cases v with
    | class_ c =>
      cases distance with
      | zero => exact settles_fail _
      | succ inner =>
        refine settles_bind (settles_getAt env inner "this") fun w ↦ ?_
        cases w with
        | object o =>
          dsimp only
          split
          · exact settles_pure _
          · exact settles_fail _
        | _ => exact settles_fail _
    | _ => exact settles_fail _

theorem settles_target (hsub : sub.Settles) (callee : Expr) (env : FrameId) :
    (target sub callee env).Settles := by
  cases callee with
  | get object name =>
    exact settles_bind (hsub.evaluate object env) fun v ↦ settles_property v name
  | super id line method => exact settles_superMethod id method env
  | _ => exact settles_bind (hsub.evaluate _ env) fun v ↦ settles_pure _

theorem settles_instantiate (hsub : sub.Settles) (c : Class) (args : List Value) :
    (instantiate sub c args).Settles := by
  refine settles_bind (settles_newObject c) fun o ↦ ?_
  cases c.method? initializerName with
  | none => exact settles_pure _
  | some f => exact settles_bind (settles_invoke hsub f o args) fun _ ↦ settles_pure _

theorem settles_callValue (hsub : sub.Settles) (v : Value) (line : Nat) (args : List Value) :
    (callValue sub v line args).Settles := by
  cases v with
  | native f =>
    rcases callValue_native sub f line args with heq | ⟨w, heq, -⟩ | ⟨cause, heq⟩
    · rw [heq]
      exact settles_bind settles_now fun time ↦ settles_pure _
    · rw [heq]
      exact settles_pure _
    · rw [heq]
      exact settles_fail _
  | function id f => exact settles_callFunction hsub f args
  | class_ c => exact settles_instantiate hsub c args
  | _ => exact settles_fail _

theorem settles_checkArity (line expected given : Nat) :
    (checkArity line expected given).Settles := by
  unfold checkArity
  split
  · exact settles_pure _
  · exact settles_fail _

theorem settles_callTarget (hsub : sub.Settles) (t : Target) (line : Nat) (args : List Value) :
    (callTarget sub t line args).Settles := by
  cases t with
  | method f o =>
    exact settles_bind (settles_checkArity _ _ _) fun _ ↦ settles_invoke hsub f o args
  | value v =>
    simp only [callTarget]
    cases v.arity? with
    | none => exact settles_fail _
    | some arity =>
      exact settles_bind (settles_checkArity _ _ _) fun _ ↦ settles_callValue hsub v line args

/-! ### Expressions -/

theorem settles_unary (op : UnaryOp) (line : Nat) (v : Value) : (unary op line v).Settles := by
  unfold unary
  split
  · exact settles_pure _
  · exact settles_pure _
  · exact settles_fail _

theorem settles_binary (op : BinaryOp) (line : Nat) (v w : Value) :
    (binary op line v w).Settles := by
  rcases binary_plain op line v w with ⟨x, heq, -⟩ | ⟨cause, heq⟩
  · rw [heq]
    exact settles_pure x
  · rw [heq]
    exact settles_fail _

theorem settles_evaluate (hsub : sub.Settles) (e : Expr) (env : FrameId) :
    (evaluate sub e env).Settles := by
  cases e with
  | literal value => exact settles_pure _
  | grouping inner => exact hsub.evaluate inner env
  | unary op line operand =>
    exact settles_bind (hsub.evaluate operand env) fun v ↦ settles_unary op line v
  | binary op line left right =>
    exact settles_bind (hsub.evaluate left env) fun v ↦
      settles_bind (hsub.evaluate right env) fun w ↦ settles_binary op line v w
  | logical op line left right =>
    refine settles_bind (hsub.evaluate left env) fun v ↦ ?_
    split
    · exact settles_pure _
    · exact hsub.evaluate right env
  | var id name => exact settles_lookUp id name.text name.line env
  | assign id name value =>
    exact settles_bind (hsub.evaluate value env) fun v ↦
      settles_bind (settles_store id name v env) fun _ ↦ settles_pure _
  | call callee line args =>
    exact settles_bind (settles_target hsub callee env) fun t ↦
      settles_bind (settles_evaluateAll hsub env args) fun vs ↦ settles_callTarget hsub t line vs
  | get object name =>
    exact settles_bind (hsub.evaluate object env) fun v ↦
      settles_bind (settles_property v name) fun t ↦ settles_toValue t
  | set object name value =>
    refine settles_bind (hsub.evaluate object env) fun v ↦ ?_
    cases v with
    | object o =>
      exact settles_bind (hsub.evaluate value env) fun w ↦
        settles_bind (settles_setField o name.text w) fun _ ↦ settles_pure _
    | _ => exact settles_fail _
  | this id line => exact settles_lookUp id "this" line env
  | super id line method =>
    exact settles_bind (settles_superMethod id method env) fun t ↦ settles_toValue t

/-! ### Statements -/

theorem settles_optional (hsub : sub.Settles) (env : FrameId) (e? : Option Expr) :
    (optional sub env e?).Settles := by
  cases e? with
  | none => exact settles_pure _
  | some e => exact hsub.evaluate e env

theorem settles_rounds {test : Action Value} {body : Action Flow} (htest : test.Settles)
    (hbody : body.Settles) (fuel : Nat) : (rounds test body fuel).Settles := by
  intro m h
  refine ends_rounds (fun m₁ (hm₁ : m.Settles m₁) ↦ ?_)
    (fun v m₁ (hm₁ : m.Settles m₁) _ ↦ ?_) (fun v m₁ hm₁ _ ↦ hm₁) fuel m
    (h.settles_of_eq rfl rfl)
  · exact (htest m₁ hm₁.filed).imp (fun _ _ h ↦ hm₁.trans h) fun _ _ h ↦ hm₁.trans h
  · refine (hbody m₁ hm₁.filed).imp (fun flow m₂ h ↦ ?_) fun _ _ h ↦ hm₁.trans h
    cases flow <;> exact hm₁.trans h

theorem settles_declareFunction (r : Routine) (env : FrameId) :
    (declareFunction r env).Settles :=
  settles_bind (settles_capture env) fun _ ↦ settles_bind settles_fresh fun _ ↦
    settles_define _ _ _

theorem settles_superclassValue (env : FrameId) (superclass : Option Superclass) :
    (superclassValue env superclass).Settles := by
  cases superclass with
  | none => exact settles_pure _
  | some s =>
    refine settles_bind (settles_lookUp _ _ _ _) fun v ↦ ?_
    cases v with
    | class_ c => exact settles_pure _
    | _ => exact settles_fail _

theorem settles_methodScope (name : Name) (methods : List Routine) (env : FrameId)
    (parent : Option Class) : (methodScope name methods env parent).Settles := by
  cases parent with
  | none => exact settles_bind (settles_capture env) fun _ ↦ settles_pure _
  | some c => exact settles_openCaptured _ _ _ _

theorem settles_declareClass (name : Name) (superclass : Option Superclass)
    (methods : List Routine) (env : FrameId) :
    (declareClass name superclass methods env).Settles := by
  rw [declareClass_eq]
  exact settles_bind (settles_superclassValue env superclass) fun parent ↦
    settles_bind (settles_define _ _ _) fun _ ↦
      settles_bind (settles_methodScope name methods env parent) fun frame ↦
        settles_bind settles_fresh fun id ↦ settles_assign _ _ _ _

theorem settles_execute (hsub : sub.Settles) (fuel : Nat) (s : Stmt) (env : FrameId) :
    (execute fuel sub s env).Settles := by
  cases s with
  | expression value =>
    exact settles_bind (hsub.evaluate value env) fun _ ↦ settles_pure _
  | print value =>
    exact settles_bind (hsub.evaluate value env) fun v ↦
      settles_bind (settles_write _) fun _ ↦ settles_pure _
  | var name initial =>
    exact settles_bind (settles_optional hsub env initial) fun v ↦
      settles_bind (settles_define env name.text v) fun _ ↦ settles_pure _
  | block body => exact settles_within fun frame ↦ settles_executeAll hsub frame body
  | ifThen test consequent =>
    refine settles_bind (hsub.evaluate test env) fun v ↦ ?_
    split
    · exact hsub.execute consequent env
    · exact settles_pure _
  | ifElse test consequent alternative =>
    refine settles_bind (hsub.evaluate test env) fun v ↦ ?_
    split
    · exact hsub.execute consequent env
    · exact hsub.execute alternative env
  | loop test body => exact settles_rounds (hsub.evaluate test env) (hsub.execute body env) fuel
  | function r => exact settles_bind (settles_declareFunction r env) fun _ ↦ settles_pure _
  | return_ line value =>
    exact settles_bind (settles_optional hsub env value) fun v ↦ settles_pure _
  | class_ name superclass methods =>
    exact settles_bind (settles_declareClass name superclass methods env) fun _ ↦ settles_pure _

end Evaluation

theorem settles_evaluator (fuel : Nat) : (evaluator fuel).Settles := by
  induction fuel with
  | zero => exact ⟨fun _ _ _ _ ↦ trivial, fun _ _ _ _ ↦ trivial⟩
  | succ fuel ih =>
    exact ⟨fun e env ↦ Evaluation.settles_evaluate ih e env,
      fun s env ↦ Evaluation.settles_execute ih fuel s env⟩

theorem Node.settles_run (n : Node) (fuel : Nat) (env : FrameId) :
    Action.Settles (n.run fuel env) := by
  cases n with
  | expr e =>
    exact Action.settles_bind ((settles_evaluator fuel).evaluate e env) fun _ ↦
      Action.settles_pure Flow.normal
  | stmt s => exact (settles_evaluator fuel).execute s env

theorem Action.Settles.machine {x : Action α} (hx : x.Settles) (h : m.Filed)
    (hend : (x m).machine? = some m₁) : m.Settles m₁ := by
  have hends := hx m h
  cases ho : x m with
  | outOfFuel => rw [ho] at hend; cases hend
  | failed cause m₂ =>
    rw [ho] at hend
    cases hend
    exact hends.of_failed ho
  | done a m₂ =>
    rw [ho] at hend
    cases hend
    exact hends.of_done ho

/-! ### Between statements -/

/-- There is a frame in the slot that nothing has captured. -/
def Arena.Loose {α : Type} (a : Arena α) (id : FrameId) : Prop :=
  ∃ f, a.frame? id = some f ∧ f.captured = false

namespace Session

/-- Machines that a session comes to between top-level statements: a new one, and from there the
one that a statement, an expression or a call leaves behind, whether it has ended well or failed,
or one that gets to know more distances, of whatever kind, or another sink. -/
inductive Between (sink : Sink) (clock : Clock) : Machine → Prop
  | initial : Between sink clock (.initial sink clock)
  | installed {m : Machine} (distances : Distances) (before : Between sink clock m) :
    Between sink clock (m.install distances)
  | directed {m : Machine} (other : Sink) (before : Between sink clock m) :
    Between sink clock { m with sink := other }
  | ended {m m₁ : Machine} {n : Node} {fuel : Nat} (before : Between sink clock m)
    (leaves : (n.run fuel Arena.globals m).machine? = some m₁) : Between sink clock m₁
  | called {m m₁ : Machine} {fuel : Nat} {v : Value} {line : Nat} {args : List Value}
    (before : Between sink clock m)
    (leaves : (Evaluation.callValue (evaluator fuel) v line args m).machine? = some m₁) :
    Between sink clock m₁

theorem filed_initial (sink : Sink) (clock : Clock) : (Machine.initial sink clock).Filed where
  arena := (Arena.sound_ofGlobals _).filed
  releases := rfl
  noted := rfl

theorem Between.filed {sink : Sink} {clock : Clock} (h : Between sink clock m) : m.Filed := by
  induction h with
  | initial => exact filed_initial sink clock
  | installed distances before ih => exact ⟨ih.arena, ih.releases, ih.noted⟩
  | directed other before ih => exact ⟨ih.arena, ih.releases, ih.noted⟩
  | ended before leaves ih => exact ((Node.settles_run _ _ _).machine ih leaves).filed
  | called before leaves ih =>
    exact ((Evaluation.settles_callValue (settles_evaluator _) _ _ _).machine ih leaves).filed

theorem Between.not_loose {sink : Sink} {clock : Clock} (h : Between sink clock m) (k : FrameId) :
    ¬m.arena.Loose k := by
  induction h with
  | initial =>
    rintro ⟨f, hf, hloose⟩
    change (Arena.ofGlobals Native.bindings).frame? k = some f at hf
    rw [Arena.frame?_ofGlobals] at hf
    split at hf
    · cases hf
      cases hloose
    · cases hf
  | installed distances before ih => exact ih
  | directed other before ih => exact ih
  | ended before leaves ih =>
    rintro ⟨f, hf, hloose⟩
    exact ih (((Node.settles_run _ _ _).machine before.filed leaves).continues.loose hf hloose)
  | called before leaves ih =>
    rintro ⟨f, hf, hloose⟩
    have hsettles := (Evaluation.settles_callValue (settles_evaluator _) _ _ _).machine
      before.filed leaves
    exact ih (hsettles.continues.loose hf hloose)

theorem Between.captured {sink : Sink} {clock : Clock} (h : Between sink clock m) (k : FrameId)
    (hk : m.arena.Live k) : m.arena.Captured k := by
  obtain ⟨f, hf⟩ := hk
  cases hcaptured : f.captured with
  | true => exact ⟨f, hf, hcaptured⟩
  | false => exact absurd ⟨f, hf, hcaptured⟩ (h.not_loose k)

/-! ### Sessions go from one such machine to the next -/

/-- The action begins and ends between statements. -/
def Stays (sink : Sink) (clock : Clock) (x : Action α) : Prop :=
  ∀ m, Between sink clock m → (x m).Ends (fun _ ↦ Between sink clock) fun _ ↦ Between sink clock

section

variable {sink : Sink} {clock : Clock}

theorem stays_pure (a : α) : Stays sink clock (Pure.pure a : Action α) := fun _ h ↦ h

theorem stays_bind {x : Action α} {f : α → Action β} (hx : Stays sink clock x)
    (hf : ∀ a, Stays sink clock (f a)) : Stays sink clock (x >>= f) := fun m h ↦
  Action.ends_bind (hx m h) fun a m₁ h₁ ↦ hf a m₁ h₁

theorem stays_attempt {x : Action α} (hx : Stays sink clock x) : Stays sink clock x.attempt := by
  intro m h
  have hends := hx m h
  unfold Action.attempt
  cases ho : x m with
  | outOfFuel => trivial
  | failed cause m₁ => exact hends.of_failed ho
  | done a m₁ => exact hends.of_done ho

/-- An action stays between statements if its end, whatever it is, does. -/
theorem stays_of_machine {x : Action α} (hx : ∀ m m₁, Between sink clock m →
    (x m).machine? = some m₁ → Between sink clock m₁) : Stays sink clock x := by
  intro m h
  cases ho : x m with
  | outOfFuel => trivial
  | failed cause m₁ => exact hx m m₁ h (by rw [ho]; rfl)
  | done a m₁ => exact hx m m₁ h (by rw [ho]; rfl)

theorem stays_execute (fuel : Nat) (s : Stmt) :
    Stays sink clock ((evaluator fuel).execute s Arena.globals) :=
  stays_of_machine fun _ _ h hleaves ↦ .ended (n := .stmt s) h hleaves

theorem stays_evaluate (fuel : Nat) (e : Expr) :
    Stays sink clock ((evaluator fuel).evaluate e Arena.globals) := by
  refine stays_of_machine fun m m₁ h hleaves ↦
    .ended (n := .expr e) h (?_ : ((Node.expr e).run fuel _ m).machine? = _)
  change (((evaluator fuel).evaluate e Arena.globals >>=
    fun _ ↦ Pure.pure Flow.normal) m).machine? = some m₁
  rw [Action.bind_apply]
  cases ho : (evaluator fuel).evaluate e Arena.globals m <;> rw [ho] at hleaves <;> exact hleaves

theorem stays_callValue (fuel : Nat) (v : Value) (line : Nat) (args : List Value) :
    Stays sink clock (Evaluation.callValue (evaluator fuel) v line args) :=
  stays_of_machine fun _ _ h hleaves ↦ .called h hleaves

theorem stays_runStatements (fuel : Nat) (ss : List Stmt) :
    Stays sink clock (Program.runStatements (evaluator fuel) ss) := by
  induction ss with
  | nil => exact stays_pure _
  | cons s ss ih =>
    refine stays_bind (stays_execute fuel s) fun flow ↦ ?_
    cases flow with
    | normal => exact ih
    | returned v => exact fun _ h ↦ h

theorem stays_executeEach (fuel : Nat) (ss : List Stmt) :
    Stays sink clock (executeEach (evaluator fuel) ss) := by
  induction ss with
  | nil => exact stays_pure _
  | cons s ss ih =>
    refine stays_bind (stays_attempt (stays_execute fuel s)) fun result ↦ ?_
    cases result with
    | error cause => exact stays_pure _
    | ok flow => exact stays_bind ih fun _ ↦ stays_pure _

theorem stays_evaluateEach (fuel : Nat) (ss : List Stmt) :
    Stays sink clock (evaluateEach (evaluator fuel) ss) := by
  induction ss with
  | nil => exact stays_pure _
  | cons s ss ih =>
    cases s with
    | expression e =>
      refine stays_bind (stays_attempt (stays_evaluate fuel e)) fun result ↦ ?_
      cases result with
      | error cause => exact stays_pure _
      | ok v => exact stays_bind ih fun _ ↦ stays_pure _
    | _ => exact stays_bind ih fun _ ↦ stays_pure _

theorem stays_callOne (fuel line : Nat) (args : List Value) (e : Expr) :
    Stays sink clock (callOne (evaluator fuel) line args e) := by
  refine stays_bind (stays_attempt (stays_evaluate fuel e)) fun result ↦ ?_
  cases result with
  | error cause => exact stays_pure _
  | ok v =>
    dsimp only
    split
    · exact stays_pure _
    · exact stays_bind (stays_attempt (stays_callValue fuel v line args)) fun _ ↦ stays_pure _

theorem stays_callEach (fuel line : Nat) (args : List Value) (ss : List Stmt) :
    Stays sink clock (callEach (evaluator fuel) line args ss) := by
  induction ss with
  | nil => exact stays_pure _
  | cons s ss ih =>
    cases s with
    | expression e =>
      refine stays_bind (stays_callOne fuel line args e) fun _ ↦ ?_
      exact stays_bind ih fun _ ↦ stays_pure _
    | _ => exact stays_bind ih fun _ ↦ stays_pure _

theorem stays_perform (fuel : Nat) (mode : Mode) (ss : List Stmt) (distances : Distances) :
    Stays sink clock (performInstalled (evaluator fuel) mode ss distances) := by
  intro m h
  have hinstalled := h.installed distances
  cases mode with
  | interpret =>
    exact stays_bind (stays_attempt (stays_runStatements fuel ss)) (fun _ ↦ stays_pure _) _
      hinstalled
  | execute => exact stays_bind (stays_executeEach fuel ss) (fun _ ↦ stays_pure _) _ hinstalled
  | evaluate => exact stays_bind (stays_evaluateEach fuel ss) (fun _ ↦ stays_pure _) _ hinstalled
  | call line args =>
    exact stays_bind (stays_callEach fuel line args ss) (fun _ ↦ stays_pure _) _ hinstalled

theorem stays_step (fuel : Nat) (p : Piece) : Stays sink clock (step fuel p) := by
  unfold step
  dsimp only
  split
  · split
    · exact stays_perform fuel _ _ _
    · exact stays_pure _
  · exact stays_pure _

theorem stays_run (fuel : Nat) (ps : List Piece) : Stays sink clock (run fuel ps) := by
  induction ps with
  | nil => exact stays_pure _
  | cons p ps ih =>
    refine stays_bind (fun m h ↦ ?_) fun report ↦ stays_bind ih fun _ ↦ stays_pure _
    have hends := stays_step fuel p _ (h.directed .unlimited)
    unfold printing
    cases ho : step fuel p { m with sink := .unlimited } with
    | outOfFuel => trivial
    | failed cause m₁ => exact hends.of_failed ho
    | done report m₁ => exact hends.of_done ho

end

/-- However an evaluation ends, with an answer or a failure at any depth: the frames that were live
before it are live after it, where they were and made for what they were; every other live frame
is captured; and whatever is loose was loose before. It takes no more than a filed arena for this:
any distances will do, and any frame to work in. So between the statements of a session, whatever
has failed before, there is no live frame but is captured. -/
theorem frames_settle :
    (∀ (fuel : Nat) (n : Node) (env : FrameId) (m m₁ : Machine), m.Filed →
      (n.run fuel env m).machine? = some m₁ →
        (∀ k f, m.arena.frame? k = some f →
          (∃ f₁, m₁.arena.frame? k = some f₁ ∧ f₁.enclosing = f.enclosing) ∧
            m₁.origins[k.slot]? = m.origins[k.slot]?) ∧
        (∀ k, m₁.arena.Live k → ¬m.arena.Live k → m₁.arena.Captured k) ∧
        ∀ k, m₁.arena.Loose k → m.arena.Loose k) ∧
      (∀ (sink : Sink) (clock : Clock) (m : Machine), Between sink clock m →
        ∀ k, m.arena.Live k → m.arena.Captured k) ∧
      ∀ (fuel : Nat) (ps : List Piece) (sink : Sink) (clock : Clock) (m : Machine),
        (run fuel ps (.initial sink clock)).machine? = some m → Between sink clock m := by
  refine ⟨fun fuel n env m m₁ hfiled hend ↦ ?_, fun sink clock m h k ↦ h.captured k,
    fun fuel ps sink clock m hend ↦ ?_⟩
  · have hsettles := (n.settles_run fuel env).machine hfiled hend
    refine ⟨fun k f hf ↦ ?_, ?_, ?_⟩
    · obtain ⟨f₁, hf₁, henclosing, -⟩ := hsettles.continues.kept k f hf
      exact ⟨⟨f₁, hf₁, henclosing⟩, hsettles.noted k ⟨f, hf⟩⟩
    · rintro k ⟨f, hf⟩ hnew
      cases hcaptured : f.captured with
      | true => exact ⟨f, hf, hcaptured⟩
      | false => exact absurd (hsettles.continues.settled k f hf hcaptured) hnew
    · rintro k ⟨f, hf, hloose⟩
      exact hsettles.continues.loose hf hloose
  · have hends := stays_run fuel ps _ (.initial : Between sink clock _)
    cases ho : run fuel ps (.initial sink clock) with
    | outOfFuel => rw [ho] at hend; cases hend
    | failed cause m₁ =>
      rw [ho] at hend
      cases hend
      exact hends.of_failed ho
    | done reports m₁ =>
      rw [ho] at hend
      cases hend
      exact hends.of_done ho

/-- A block that captures its frame and then fails in a block of its own. -/
def failingBlock : Stmt :=
  .block [.var ⟨"a", 1⟩ (some (.literal .true)),
    .function ⟨⟨"f", 1⟩, [], [.return_ 1 (some (.var 0 ⟨"a", 1⟩))]⟩,
    .block [.var ⟨"b", 2⟩ none, .expression (.var 1 ⟨"missing", 2⟩)]]

theorem frames_settle_failingBlock : ∃ m₁,
    ((Node.stmt failingBlock).run 9 Arena.globals (.initial .unlimited .stopped)).machine? =
        some m₁ ∧
      m₁.arena.Live ⟨1⟩ ∧ m₁.arena.Captured ⟨1⟩ ∧ ¬m₁.arena.Loose ⟨2⟩ ∧
      ∀ k, m₁.arena.Live k → m₁.arena.Captured k := by
  obtain ⟨hsettle, hbetween, -⟩ := frames_settle
  have hend : ∃ m₁, ((Node.stmt failingBlock).run 9 Arena.globals
      (.initial .unlimited .stopped)).machine? = some m₁ ∧ m₁.arena.Live ⟨1⟩ := ⟨_, rfl, _, rfl⟩
  obtain ⟨m₁, hm₁, hlive⟩ := hend
  obtain ⟨-, hnew, hloose⟩ := hsettle 9 _ _ _ m₁ (filed_initial .unlimited .stopped) hm₁
  refine ⟨m₁, hm₁, hlive, hnew _ hlive (fun ⟨f, hf⟩ ↦ nomatch hf), fun h ↦ ?_,
    hbetween _ _ m₁ (.ended .initial hm₁)⟩
  obtain ⟨f, hf, -⟩ := hloose _ h
  cases hf

end Session

end Lox
