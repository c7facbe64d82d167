import Lox.Proofs.Reclamation.Access
import Lox.Proofs.Run.Pairing

/-!
Runs on similar machines follow each other, construct by construct. A construct that opens a frame
releases it at its end, whatever that end is, or captures it before anything else can refer to it;
all others leave live what was live. Evaluators whose parts follow each other therefore follow
each other (`follows_evaluate`, `follows_execute`), and by induction on fuel so do the evaluators
themselves.
-/

set_option autoImplicit false

namespace Lox

open Referring Machine

/-- Evaluators that follow each other from similar machines, in frames that correspond. -/
structure Evaluator.Follows (A B : Option Failure → Prop) (sub sub' : Evaluator) : Prop where
  evaluate : ∀ {ρ m m'} e {env env'}, Similar ρ m m' → Points ρ m env env' →
    (sub.evaluate e env m).Follows A B ρ m (sub'.evaluate e env' m')
  execute : ∀ {ρ m m'} s {env env'}, Similar ρ m m' → Points ρ m env env' →
    (sub.execute s env m).Follows A B ρ m (sub'.execute s env' m')

variable {ρ ρ₁ : FrameId → FrameId} {m m' : Machine} {env env' : FrameId} {v v' : Value}
  {A B : Option Failure → Prop}

/-! ### Frames that hold one name -/

/-- A machine in which a frame has just been opened and given its first name. -/
def Machine.opened (m : Machine) (origin : Origin) (enclosing : FrameId) (name : String)
    (v : Value) : Machine :=
  { m.pushed origin enclosing with
    arena := (m.arena.push enclosing).bind m.arena.nextFrame ⟨.empty, some enclosing, false⟩
      name v }

namespace Machine.Similar

theorem frame?_pushed (h : Similar ρ m m') (enclosing : FrameId) :
    (m.arena.push enclosing).frame? m.arena.nextFrame = some ⟨.empty, some enclosing, false⟩ ∧
      (m'.arena.push enclosing).frame? m'.arena.nextFrame =
        some ⟨.empty, some enclosing, false⟩ :=
  ⟨(h.tidy.sound.filed.frame?_push enclosing _).trans (if_pos rfl),
    (Arena.frame?_push_of_full h.full enclosing _).trans (if_pos rfl)⟩

theorem opened (h : Similar ρ m m') (henv : Points ρ m env env') (origin : Origin)
    (name : String) (hv : Holds ρ m v v') : ∃ ρ₁, m.Agree ρ ρ₁ ∧
      Leads ρ₁ (m.pushed origin env) ρ₁ (m.opened origin env name v) ∧
      Similar ρ₁ (m.opened origin env name v) (m'.opened origin env' name v') ∧
      Points ρ₁ (m.opened origin env name v) m.arena.nextFrame m'.arena.nextFrame := by
  have hagree := h.agree_extended
  have hnext := h.points_pushed origin env
  obtain ⟨hlive, rfl⟩ := henv
  have hframe := (h.frame?_pushed env).1
  have hframe' := (h.frame?_pushed (ρ env)).2
  have hlead : Leads (extended ρ m m') (m.pushed origin env) (extended ρ m m')
      (m.opened origin env name v) :=
    ⟨Arena.continues_bind name v hframe, fun _ _ ↦ rfl, fun _ _ ↦ rfl⟩
  obtain ⟨hwithin, rfl⟩ := hv.pushed h.tidy hagree origin env
  have hbound := (h.pushed hlive origin).bind hframe (hnext.renamed ▸ hframe') name hwithin
  rw [hnext.renamed] at hbound
  exact ⟨extended ρ m m', hagree, hlead, hbound, hnext.later hlead⟩

end Machine.Similar

namespace Action

/-- What opens a frame with one name goes on in the machine with that frame. -/
theorem opening_apply {β : Type} {origin : Origin} {enclosing : FrameId} {name : String}
    (h : (m.arena.push enclosing).frame? m.arena.nextFrame =
      some ⟨.empty, some enclosing, false⟩) (rest : FrameId → Action β) :
    (push origin enclosing >>= fun frame ↦ define frame name v >>= fun _ ↦ rest frame) m =
      rest m.arena.nextFrame (m.opened origin enclosing name v) := by
  change (define m.arena.nextFrame name v >>= fun _ ↦ rest m.arena.nextFrame)
    (m.pushed origin enclosing) = _
  rw [bind_apply, define_eq h]
  rfl

/-- A frame that holds one name, and that is captured before anything is done in it. -/
def openCaptured (origin : Origin) (enclosing : FrameId) (name : String) (v : Value) :
    Action FrameId :=
  push origin enclosing >>= fun frame ↦ define frame name v >>= fun _ ↦
    capture frame >>= fun _ ↦ Pure.pure frame

theorem follows_openCaptured (h : Similar ρ m m') (henv : Points ρ m env env')
    (origin : Origin) (name : String) (hv : Holds ρ m v v') :
    (openCaptured origin env name v m).Follows A B ρ m (openCaptured origin env' name v' m') := by
  obtain ⟨ρ₁, hagree, hlead, hsim, hnext⟩ := h.opened henv origin name hv
  unfold openCaptured
  rw [opening_apply (h.frame?_pushed env).1, opening_apply (h.frame?_pushed env').2]
  have hcapture := hsim.capture hnext.live
  rw [hnext.renamed] at hcapture
  exact .done ⟨h.tidy.sound.filed.continues_capture_opened hlead.continues, hagree,
    fun k hk ↦ h.tidy.origins_pushed hk origin env⟩ hcapture
    ⟨hnext.live.captured_capture, hnext.renamed.symm⟩

/-- A frame that holds one name and is released at the end. -/
theorem follows_openReleased {β : Type} [Referring β] (h : Similar ρ m m')
    (henv : Points ρ m env env') (origin : Origin) (name : String) (hv : Holds ρ m v v')
    {x x' : FrameId → Action β}
    (hx : ∀ ρ₁, m.Agree ρ ρ₁ →
      Leads ρ₁ (m.pushed origin env) ρ₁ (m.opened origin env name v) →
      Similar ρ₁ (m.opened origin env name v) (m'.opened origin env' name v') →
      Points ρ₁ (m.opened origin env name v) m.arena.nextFrame m'.arena.nextFrame →
      (x m.arena.nextFrame (m.opened origin env name v)).Follows A B ρ₁ (m.opened origin env name v)
        (x' m'.arena.nextFrame (m'.opened origin env' name v'))) :
    ((push origin env >>= fun frame ↦ define frame name v >>= fun _ ↦
        releasing frame (x frame)) m).Follows A B ρ m
      ((push origin env' >>= fun frame ↦ define frame name v' >>= fun _ ↦
        releasing frame (x' frame)) m') := by
  obtain ⟨ρ₁, hagree, hlead, hsim, hnext⟩ := h.opened henv origin name hv
  rw [opening_apply (h.frame?_pushed env).1, opening_apply (h.frame?_pushed env').2,
    releasing_apply, releasing_apply]
  exact Outcome.Follows.released h.tidy henv.live _ hagree
    ((hx ρ₁ hagree hlead hsim hnext).after hlead)

end Action

/-! ### Calls -/

namespace Evaluation

open Lox.Action

variable {sub sub' : Evaluator}

theorem follows_evaluateAll (hsub : sub.Follows A B sub') (h : Similar ρ m m')
    (henv : Points ρ m env env') (es : List Expr) :
    (evaluateAll sub env es m).Follows A B ρ m (evaluateAll sub' env' es m') := by
  induction es generalizing ρ m m' with
  | nil => exact follows_pure h ⟨fun _ hv ↦ (nomatch hv), rfl⟩
  | cons e es ih =>
    refine follows_bind (hsub.evaluate e h henv) fun ρ₁ m₁ m₁' v v' hlead hsim hv ↦ ?_
    refine follows_bind (ih hsim (henv.later hlead)) fun ρ₂ m₂ m₂' vs vs' hlead₂ hsim₂ hvs ↦ ?_
    obtain ⟨hwithin, rfl⟩ := hv.later hlead₂
    obtain ⟨hrest, rfl⟩ := hvs
    refine follows_pure hsim₂ ⟨fun w hw ↦ ?_, rfl⟩
    rcases List.mem_cons.1 hw with rfl | hw
    · exact hwithin
    · exact hrest w hw

theorem follows_executeAll (hsub : sub.Follows A B sub') (h : Similar ρ m m')
    (henv : Points ρ m env env') (ss : List Stmt) :
    (executeAll sub env ss m).Follows A B ρ m (executeAll sub' env' ss m') := by
  induction ss generalizing ρ m m' with
  | nil => exact follows_pure h ⟨trivial, rfl⟩
  | cons s ss ih =>
    refine follows_bind (hsub.execute s h henv) fun ρ₁ m₁ m₁' flow flow' hlead hsim hflow ↦ ?_
    obtain ⟨hwithin, rfl⟩ := hflow
    cases flow with
    | normal => exact ih hsim (henv.later hlead)
    | returned v => exact follows_pure hsim ⟨hwithin, rfl⟩

theorem follows_defineParameters (h : Similar ρ m m') (henv : Points ρ m env env')
    (names : List Name) {vs vs' : List Value} (hvs : Holds ρ m vs vs') :
    (defineParameters env names vs m).Follows A B ρ m (defineParameters env' names vs' m') := by
  obtain ⟨hwithin, rfl⟩ := hvs
  induction names generalizing ρ m m' vs with
  | nil => exact follows_pure h ⟨trivial, rfl⟩
  | cons name names ih =>
    cases vs with
    | nil => exact follows_pure h ⟨trivial, rfl⟩
    | cons v vs =>
      refine follows_bind (follows_define h henv name.text
        ⟨hwithin v (List.mem_cons_self ..), rfl⟩) fun ρ₁ m₁ m₁' _ _ hlead hsim _ ↦ ?_
      have hrest : Holds ρ m vs (rename ρ vs) :=
        ⟨fun w hw ↦ hwithin w (List.mem_cons_of_mem _ hw), rfl⟩
      obtain ⟨hwithin₁, hrenamed₁⟩ := hrest.later hlead
      change (defineParameters env names vs m₁).Follows A B ρ₁ m₁
        (defineParameters env' names (rename ρ vs) m₁')
      rw [hrenamed₁]
      exact ih hsim (henv.later hlead) hwithin₁

theorem callFunction_eq (sub : Evaluator) (f : Function) (args : List Value) :
    callFunction sub f args =
      (push (.call f.routine) f.closure >>= fun frame ↦ releasing frame
        (defineParameters frame f.routine.parameters args >>= fun _ ↦
          executeAll sub frame f.routine.body)) >>= fun flow ↦
      if f.isInitializer then getAt f.closure 0 "this" else Pure.pure flow.value := by
  unfold callFunction
  rw [bind_assoc]

theorem follows_callFunction (hsub : sub.Follows A B sub') (h : Similar ρ m m')
    (henv : Points ρ m env env') (r : Routine) (isInitializer : Bool) {args args' : List Value}
    (hargs : Holds ρ m args args') :
    (callFunction sub ⟨r, env, isInitializer⟩ args m).Follows A B ρ m
      (callFunction sub' ⟨r, env', isInitializer⟩ args' m') := by
  rw [callFunction_eq, callFunction_eq]
  refine follows_bind (follows_within h henv (.call r) ?_)
    fun ρ₁ m₁ m₁' flow flow' hlead hsim hflow ↦ ?_
  · intro ρ₁ frame frame' hagree hsim hframe
    refine follows_bind (follows_defineParameters hsim hframe _
      (hargs.pushed h.tidy hagree _ _)) fun ρ₂ m₂ m₂' _ _ hlead hsim₂ _ ↦ ?_
    exact follows_executeAll hsub hsim₂ (hframe.later hlead) _
  · obtain ⟨hwithin, rfl⟩ := hflow
    dsimp only
    split
    · exact follows_getAt hsim 0 "this" (henv.later hlead)
    · refine follows_pure hsim ?_
      cases flow with
      | normal => exact ⟨trivial, rfl⟩
      | returned v => exact ⟨hwithin, rfl⟩

theorem invoke_eq (sub : Evaluator) (f : Function) (o : Object) (args : List Value) :
    invoke sub f o args =
      push (.receiver f.routine) f.closure >>= fun frame ↦
        define frame "this" (.object o) >>= fun _ ↦
          releasing frame (callFunction sub { f with closure := frame } args) := by
  simp only [invoke, bindMethod, bind_assoc, pure_bind]

theorem follows_invoke (hsub : sub.Follows A B sub') (h : Similar ρ m m') {f f' : Function}
    (hf : Holds ρ m f f') {o o' : Object} (ho : Holds ρ m o o') {args args' : List Value}
    (hargs : Holds ρ m args args') :
    (invoke sub f o args m).Follows A B ρ m (invoke sub' f' o' args' m') := by
  have hclosure : Points ρ m f.closure f'.closure :=
    ⟨Arena.Captured.live hf.within, (congrArg Function.closure hf.renamed).symm⟩
  have hreceiver : Holds ρ m (Value.object o) (.object o') :=
    ⟨ho.within, congrArg Value.object ho.renamed⟩
  obtain ⟨-, rfl⟩ := hf
  rw [invoke_eq, invoke_eq]
  refine follows_openReleased h hclosure (.receiver f.routine) "this" hreceiver
    fun ρ₁ hagree hlead hsim hnext ↦ ?_
  exact follows_callFunction hsub hsim hnext f.routine f.isInitializer
    ((hargs.pushed h.tidy hagree _ _).later hlead)

theorem toValue_method (f : Function) (o : Object) :
    Target.toValue (.method f o) =
      openCaptured (.receiver f.routine) f.closure "this" (.object o) >>= fun frame ↦
        fresh >>= fun id ↦ Pure.pure (.function id { f with closure := frame }) := by
  simp only [Target.toValue, bindMethod, openCaptured, bind_assoc, pure_bind]

theorem follows_toValue (h : Similar ρ m m') {t t' : Target} (ht : Holds ρ m t t') :
    (Target.toValue t m).Follows A B ρ m (Target.toValue t' m') := by
  obtain ⟨hwithin, rfl⟩ := ht
  cases t with
  | value v => exact follows_pure h ⟨hwithin, rfl⟩
  | method f o =>
    have hclosure : Points ρ m f.closure (ρ f.closure) := ⟨Arena.Captured.live hwithin.1, rfl⟩
    change (Target.toValue (.method f o) m).Follows A B ρ m
      (Target.toValue (.method (rename ρ f) (rename ρ o)) m')
    rw [toValue_method, toValue_method]
    have hreceiver : Holds ρ m (Value.object o) (.object (rename ρ o)) := ⟨hwithin.2, rfl⟩
    refine follows_bind (follows_openCaptured h hclosure _ "this" hreceiver)
      fun ρ₁ m₁ m₁' frame frame' _ hsim hframe ↦ ?_
    refine follows_bind (follows_fresh hsim) fun ρ₂ m₂ m₂' id id' hlead₂ hsim₂ hid ↦ ?_
    obtain ⟨hcaptured, rfl⟩ := hframe.later hlead₂
    obtain ⟨-, rfl⟩ := hid
    exact follows_pure hsim₂ ⟨hcaptured, rfl⟩

theorem follows_property (h : Similar ρ m m') {v v' : Value} (hv : Holds ρ m v v')
    (name : Name) : (property v name m).Follows A B ρ m (property v' name m') := by
  obtain ⟨hwithin, rfl⟩ := hv
  cases v with
  | object o =>
    refine follows_bind (follows_field? h ⟨hwithin, rfl⟩ name.text)
      fun ρ₁ m₁ m₁' value value' hlead hsim hvalue ↦ ?_
    have hclass : Holds ρ m o.class_ (rename ρ o.class_) := ⟨hwithin, rfl⟩
    have hobject : Holds ρ m o (rename ρ o) := ⟨hwithin, rfl⟩
    obtain ⟨hclasswithin, hclassrenamed⟩ := hclass.later hlead
    obtain ⟨hvaluewithin, rfl⟩ := hvalue
    have hmethod : (rename ρ o).class_.method? name.text =
        (o.class_.method? name.text).map (Function.rename ρ₁) := by
      change (rename ρ o.class_).method? name.text = _
      rw [hclassrenamed, Class.method?_rename]
    rw [hmethod]
    cases value with
    | some w => exact follows_pure hsim ⟨hvaluewithin w rfl, rfl⟩
    | none =>
      cases hfind : o.class_.method? name.text with
      | none => exact follows_fail hsim rfl
      | some f =>
        obtain ⟨howithin, horenamed⟩ := hobject.later hlead
        exact follows_pure hsim ⟨⟨Class.within_method? hclasswithin hfind, howithin⟩,
          congrArg (Target.method _) horenamed⟩
  | _ => exact follows_fail h rfl

theorem follows_lookUp (h : Similar ρ m m') (henv : Points ρ m env env') (id : NodeId)
    (name : String) (line : Nat) :
    (lookUp id name line env m).Follows A B ρ m (lookUp id name line env' m') := by
  refine follows_bind (follows_distance? h id)
    fun ρ₁ m₁ m₁' distance? distance?' hlead hsim hdistance ↦ ?_
  obtain ⟨-, rfl⟩ := hdistance
  cases distance? with
  | none => exact follows_get_globals hsim name line
  | some distance => exact follows_getAt hsim distance name (henv.later hlead)

theorem follows_store (h : Similar ρ m m') (henv : Points ρ m env env') (id : NodeId)
    (name : Name) (hv : Holds ρ m v v') :
    (store id name v env m).Follows A B ρ m (store id name v' env' m') := by
  refine follows_bind (follows_distance? h id)
    fun ρ₁ m₁ m₁' distance? distance?' hlead hsim hdistance ↦ ?_
  obtain ⟨-, rfl⟩ := hdistance
  cases distance? with
  | none => exact follows_assign_globals hsim name.text name.line (hv.later hlead)
  | some distance =>
    exact follows_assignAt hsim distance name.text (henv.later hlead) (hv.later hlead)

/-- A method of a class, for an object. -/
theorem follows_methodOf (h : Similar ρ m m') {c c' : Class} (hc : Holds ρ m c c') {o o' : Object}
    (ho : Holds ρ m o o') (method : Name) :
    ((match c.method? method.text with
      | some f => (Pure.pure (.method f o) : Action Target)
      | none => .failAt method.line (.undefinedProperty method.text)) m).Follows A B ρ m
      ((match c'.method? method.text with
        | some f => (Pure.pure (.method f o') : Action Target)
        | none => .failAt method.line (.undefinedProperty method.text)) m') := by
  obtain ⟨hwithin, rfl⟩ := hc
  obtain ⟨howithin, rfl⟩ := ho
  rw [Class.method?_rename]
  cases hfind : c.method? method.text with
  | none => exact follows_fail h rfl
  | some f => exact follows_pure h ⟨⟨Class.within_method? hwithin hfind, howithin⟩, rfl⟩

theorem follows_superMethod (h : Similar ρ m m') (henv : Points ρ m env env') (id : NodeId)
    (method : Name) :
    (superMethod id method env m).Follows A B ρ m (superMethod id method env' m') := by
  refine follows_bind (follows_distance? h id)
    fun ρ₁ m₁ m₁' distance? distance?' hlead hsim hdistance ↦ ?_
  obtain ⟨-, rfl⟩ := hdistance
  cases distance? with
  | none => exact follows_fail hsim rfl
  | some distance =>
    refine follows_bind (follows_getAt hsim distance "super" (henv.later hlead))
      fun ρ₂ m₂ m₂' v v' hlead₂ hsim₂ hv ↦ ?_
    obtain ⟨hwithin, rfl⟩ := hv
    cases v with
    | class_ c =>
      cases distance with
      | zero => exact follows_fail hsim₂ rfl
      | succ inner =>
        have hclass : Holds ρ₂ m₂ c (rename ρ₂ c) := ⟨hwithin, rfl⟩
        refine follows_bind (follows_getAt hsim₂ inner "this" ((henv.later hlead).later hlead₂))
          fun ρ₃ m₃ m₃' w w' hlead₃ hsim₃ hw ↦ ?_
        obtain ⟨hwwithin, rfl⟩ := hw
        cases w with
        | object o => exact follows_methodOf hsim₃ (hclass.later hlead₃) ⟨hwwithin, rfl⟩ method
        | _ => exact follows_fail hsim₃ rfl
    | _ => exact follows_fail hsim₂ rfl

theorem follows_target (hsub : sub.Follows A B sub') (h : Similar ρ m m')
    (henv : Points ρ m env env') (callee : Expr) :
    (target sub callee env m).Follows A B ρ m (target sub' callee env' m') := by
  have hother :
      ((sub.evaluate callee env >>= fun v ↦ Pure.pure (Target.value v)) m).Follows A B ρ m
        ((sub'.evaluate callee env' >>= fun v ↦ Pure.pure (Target.value v)) m') := by
    refine follows_bind (hsub.evaluate callee h henv) fun ρ₁ m₁ m₁' v v' _ hsim hv ↦ ?_
    obtain ⟨hwithin, rfl⟩ := hv
    exact follows_pure hsim ⟨hwithin, rfl⟩
  cases callee with
  | get object name =>
    exact follows_bind (hsub.evaluate object h henv) fun ρ₁ m₁ m₁' v v' _ hsim hv ↦
      follows_property hsim hv name
  | super id line method => exact follows_superMethod h henv id method
  | _ => exact hother

theorem follows_instantiate (hsub : sub.Follows A B sub') (h : Similar ρ m m') {c c' : Class}
    (hc : Holds ρ m c c') {args args' : List Value} (hargs : Holds ρ m args args') :
    (instantiate sub c args m).Follows A B ρ m (instantiate sub' c' args' m') := by
  refine follows_bind (follows_newObject h hc) fun ρ₁ m₁ m₁' o o' hlead hsim ho ↦ ?_
  obtain ⟨hclasswithin, rfl⟩ := hc.later hlead
  have hobject : Holds ρ₁ m₁ (Value.object o) (.object o') :=
    ⟨ho.within, congrArg Value.object ho.renamed⟩
  rw [Class.method?_rename]
  cases hfind : c.method? initializerName with
  | none => exact follows_pure hsim hobject
  | some f =>
    refine follows_bind (follows_invoke hsub hsim
      ⟨Class.within_method? hclasswithin hfind, rfl⟩ ho (hargs.later hlead))
      fun ρ₂ m₂ m₂' _ _ hlead₂ hsim₂ _ ↦ ?_
    exact follows_pure hsim₂ (hobject.later hlead₂)

/-- Native functions look at nothing in their arguments that a renaming could change. -/
theorem answer_rename (f : Native) (args : List Value) :
    f.answer (rename ρ args) = f.answer args := by
  cases f with
  | div =>
    match args with
    | [] => rfl
    | [v] => cases v <;> rfl
    | v :: _ :: _ => cases v <;> rfl
  | _ => rfl

/-- Calls of native functions follow each other, whatever becomes of the other frames. -/
theorem follows_callNative (h : Similar ρ m m') (f : Native) (line : Nat) {args args' : List Value}
    (hargs : Holds ρ m args args') :
    (callValue sub (.native f) line args m).Follows A B ρ m
      (callValue sub' (.native f) line args' m') := by
  have hsame : callValue sub' (.native f) line args' = callValue sub (.native f) line args := by
    rw [hargs.renamed]
    simp only [callValue, answer_rename]
  rw [hsame]
  rcases callValue_native sub f line args with heq | ⟨w, heq, hplain⟩ | ⟨cause, heq⟩
  · rw [heq]
    refine follows_bind (follows_now h) fun ρ₁ m₁ m₁' time time' hlead hsim htime ↦ ?_
    exact follows_pure hsim ⟨trivial, congrArg Value.number htime.renamed⟩
  · rw [heq]
    exact follows_pure h ⟨hplain.within, (hplain.rename_eq ρ).symm⟩
  · rw [heq]
    exact follows_fail h rfl

theorem follows_callValue (hsub : sub.Follows A B sub') (h : Similar ρ m m') (hv : Holds ρ m v v')
    (line : Nat) {args args' : List Value} (hargs : Holds ρ m args args') :
    (callValue sub v line args m).Follows A B ρ m (callValue sub' v' line args' m') := by
  obtain ⟨hwithin, rfl⟩ := hv
  cases v with
  | native f => exact follows_callNative h f line hargs
  | function id f =>
    exact follows_callFunction hsub h ⟨Arena.Captured.live hwithin, rfl⟩ f.routine f.isInitializer
      hargs
  | class_ c => exact follows_instantiate hsub h ⟨hwithin, rfl⟩ hargs
  | _ => exact follows_fail h rfl

theorem follows_checkArity (h : Similar ρ m m') (line expected given : Nat) :
    (checkArity line expected given m).Follows A B ρ m (checkArity line expected given m') := by
  unfold checkArity
  split
  · exact follows_pure h ⟨trivial, rfl⟩
  · exact follows_fail h rfl

theorem follows_callTarget (hsub : sub.Follows A B sub') (h : Similar ρ m m') {t t' : Target}
    (ht : Holds ρ m t t') (line : Nat) {args args' : List Value} (hargs : Holds ρ m args args') :
    (callTarget sub t line args m).Follows A B ρ m (callTarget sub' t' line args' m') := by
  have hlength : args'.length = args.length := by rw [hargs.renamed]; exact List.length_map _
  obtain ⟨hwithin, rfl⟩ := ht
  cases t with
  | method f o =>
    have hf : Holds ρ m f (rename ρ f) := ⟨hwithin.1, rfl⟩
    have ho : Holds ρ m o (rename ρ o) := ⟨hwithin.2, rfl⟩
    change Outcome.Follows A B ρ m _
      (callTarget sub' (.method (rename ρ f) (rename ρ o)) line args' m')
    unfold callTarget
    dsimp only
    rw [hlength]
    exact follows_bind (follows_checkArity h line f.arity args.length)
      fun ρ₁ m₁ m₁' _ _ hlead hsim _ ↦
        follows_invoke hsub hsim (hf.later hlead) (ho.later hlead) (hargs.later hlead)
  | value v =>
    have hv : Holds ρ m v (rename ρ v) := ⟨hwithin, rfl⟩
    change Outcome.Follows A B ρ m _ (callTarget sub' (.value (rename ρ v)) line args' m')
    unfold callTarget
    dsimp only
    rw [hlength, Value.arity?_rename]
    cases v.arity? with
    | none => exact follows_fail h rfl
    | some arity =>
      exact follows_bind (follows_checkArity h line arity args.length)
        fun ρ₁ m₁ m₁' _ _ hlead hsim _ ↦
          follows_callValue hsub hsim (hv.later hlead) line (hargs.later hlead)

/-! ### Expressions -/

theorem follows_unary (h : Similar ρ m m') (op : UnaryOp) (line : Nat) (hv : Holds ρ m v v') :
    (unary op line v m).Follows A B ρ m (unary op line v' m') := by
  obtain ⟨-, rfl⟩ := hv
  cases op with
  | not =>
    change Outcome.Follows A B ρ m _ ((Pure.pure (.bool !(rename ρ v).truthy) : Action Value) m')
    rw [Value.truthy_rename]
    exact follows_pure h ⟨trivial, rfl⟩
  | negate =>
    cases v with
    | number n => exact follows_pure h ⟨trivial, rfl⟩
    | _ => exact follows_fail h rfl

theorem binary_rename (op : BinaryOp) (line : Nat) (v w : Value) :
    binary op line (rename ρ v) (rename ρ w) = binary op line v w := by
  cases op with
  | equal => exact congrArg (fun b ↦ Pure.pure (Value.bool b)) (Value.same_rename ρ v w)
  | notEqual => exact congrArg (fun b ↦ Pure.pure (Value.bool !b)) (Value.same_rename ρ v w)
  | _ => cases v <;> cases w <;> rfl

theorem follows_binary (h : Similar ρ m m') (op : BinaryOp) (line : Nat) (hv : Holds ρ m v v')
    {w w' : Value} (hw : Holds ρ m w w') :
    (binary op line v w m).Follows A B ρ m (binary op line v' w' m') := by
  rw [hv.renamed, hw.renamed, binary_rename]
  rcases binary_plain op line v w with ⟨x, heq, hx⟩ | ⟨cause, heq⟩
  · rw [heq]
    exact follows_pure h ⟨hx.within, (hx.rename_eq ρ).symm⟩
  · rw [heq]
    exact follows_fail h rfl

theorem decides_rename (op : LogicalOp) (v : Value) : decides op (rename ρ v) = decides op v := by
  cases op <;> simp [decides]

theorem follows_evaluate (hsub : sub.Follows A B sub') (h : Similar ρ m m')
    (henv : Points ρ m env env') (e : Expr) :
    (evaluate sub e env m).Follows A B ρ m (evaluate sub' e env' m') := by
  cases e with
  | literal value => cases value <;> exact follows_pure h ⟨trivial, rfl⟩
  | grouping inner => exact hsub.evaluate inner h henv
  | unary op line operand =>
    exact follows_bind (hsub.evaluate operand h henv) fun ρ₁ m₁ m₁' v v' _ hsim hv ↦
      follows_unary hsim op line hv
  | binary op line left right =>
    refine follows_bind (hsub.evaluate left h henv) fun ρ₁ m₁ m₁' v v' hlead hsim hv ↦ ?_
    exact follows_bind (hsub.evaluate right hsim (henv.later hlead))
      fun ρ₂ m₂ m₂' w w' hlead₂ hsim₂ hw ↦ follows_binary hsim₂ op line (hv.later hlead₂) hw
  | logical op line left right =>
    refine follows_bind (hsub.evaluate left h henv) fun ρ₁ m₁ m₁' v v' hlead hsim hv ↦ ?_
    have hdecides : decides op v' = decides op v := by rw [hv.renamed, decides_rename]
    rw [hdecides]
    split
    · exact follows_pure hsim hv
    · exact hsub.evaluate right hsim (henv.later hlead)
  | var id name => exact follows_lookUp h henv id name.text name.line
  | assign id name value =>
    refine follows_bind (hsub.evaluate value h henv) fun ρ₁ m₁ m₁' v v' hlead hsim hv ↦ ?_
    exact follows_bind (follows_store hsim (henv.later hlead) id name hv)
      fun ρ₂ m₂ m₂' _ _ hlead₂ hsim₂ _ ↦ follows_pure hsim₂ (hv.later hlead₂)
  | call callee line args =>
    refine follows_bind (follows_target hsub h henv callee)
      fun ρ₁ m₁ m₁' t t' hlead hsim ht ↦ ?_
    exact follows_bind (follows_evaluateAll hsub hsim (henv.later hlead) args)
      fun ρ₂ m₂ m₂' vs vs' hlead₂ hsim₂ hvs ↦
        follows_callTarget hsub hsim₂ (ht.later hlead₂) line hvs
  | get object name =>
    refine follows_bind (hsub.evaluate object h henv) fun ρ₁ m₁ m₁' v v' _ hsim hv ↦ ?_
    exact follows_bind (follows_property hsim hv name) fun ρ₂ m₂ m₂' t t' _ hsim₂ ht ↦
      follows_toValue hsim₂ ht
  | set object name value =>
    refine follows_bind (hsub.evaluate object h henv) fun ρ₁ m₁ m₁' v v' hlead hsim hv ↦ ?_
    obtain ⟨hwithin, rfl⟩ := hv
    cases v with
    | object o =>
      have ho : Holds ρ₁ m₁ o (rename ρ₁ o) := ⟨hwithin, rfl⟩
      refine follows_bind (hsub.evaluate value hsim (henv.later hlead))
        fun ρ₂ m₂ m₂' w w' hlead₂ hsim₂ hw ↦ ?_
      exact follows_bind (follows_setField hsim₂ (ho.later hlead₂) name.text hw)
        fun ρ₃ m₃ m₃' _ _ hlead₃ hsim₃ _ ↦ follows_pure hsim₃ (hw.later hlead₃)
    | _ => exact follows_fail hsim rfl
  | this id line => exact follows_lookUp h henv id "this" line
  | super id line method =>
    exact follows_bind (follows_superMethod h henv id method) fun ρ₁ m₁ m₁' t t' _ hsim ht ↦
      follows_toValue hsim ht

/-! ### Declarations -/

theorem follows_declareFunction (h : Similar ρ m m') (henv : Points ρ m env env')
    (r : Routine) : (declareFunction r env m).Follows A B ρ m (declareFunction r env' m') := by
  refine follows_bind_of_done (follows_capture h henv) fun ρ₁ m₁ m₁' _ _ hdone hlead hsim _ ↦ ?_
  refine follows_bind (follows_fresh hsim) fun ρ₂ m₂ m₂' id id' hlead₂ hsim₂ hid ↦ ?_
  have henv₂ := (henv.later hlead).later hlead₂
  obtain ⟨-, rfl⟩ := hid
  refine follows_define hsim₂ henv₂ r.name.text ⟨?_, ?_⟩
  · cases hdone
    exact hlead₂.continues.captured (henv.live.captured_capture)
  · rw [← henv₂.renamed]
    rfl

theorem follows_superclassValue (h : Similar ρ m m') (henv : Points ρ m env env')
    (superclass : Option Superclass) :
    (superclassValue env superclass m).Follows A B ρ m (superclassValue env' superclass m') := by
  cases superclass with
  | none => exact follows_pure h ⟨fun _ hc ↦ (nomatch hc), rfl⟩
  | some s =>
    refine follows_bind (follows_lookUp h henv s.id s.name.text s.name.line)
      fun ρ₁ m₁ m₁' v v' _ hsim hv ↦ ?_
    obtain ⟨hwithin, rfl⟩ := hv
    cases v with
    | class_ c =>
      refine follows_pure hsim ⟨fun c' hc' ↦ ?_, rfl⟩
      cases hc'
      exact hwithin
    | _ => exact follows_fail hsim rfl

/-- The frame of the methods of a class, captured. -/
def methodScope (name : Name) (methods : List Routine) (env : FrameId) :
    Option Class → Action FrameId
  | none => capture env >>= fun _ ↦ Pure.pure env
  | some parent => openCaptured (.extension name methods) env "super" (.class_ parent)

theorem declareClass_eq (name : Name) (superclass : Option Superclass) (methods : List Routine)
    (env : FrameId) :
    declareClass name superclass methods env =
      superclassValue env superclass >>= fun parent ↦ define env name.text .nil >>= fun _ ↦
        methodScope name methods env parent >>= fun frame ↦ fresh >>= fun id ↦
          assign env name.text (.class_ ⟨⟨id, name.text, methodTable methods frame⟩,
            (parent.map Class.layers).getD []⟩) name.line := by
  unfold declareClass
  congr 1
  funext parent
  congr 1
  funext _
  cases parent <;> simp [methodFrame, methodScope, openCaptured]

/-- The frame of the methods leaves other frames as they are, but for their flags. -/
theorem values_methodScope (h : m.Tidy) {name : Name} {methods : List Routine}
    {parent : Option Class} {frame k : FrameId} {m₁ : Machine}
    (hrun : methodScope name methods env parent m = .done frame m₁) {f : Frame Value}
    (hk : m.arena.frame? k = some f) :
    ∃ f₁, m₁.arena.frame? k = some f₁ ∧ f₁.values = f.values := by
  cases parent with
  | none =>
    cases hrun
    obtain ⟨marked, hmarked⟩ := Arena.frame?_capture m.arena env
    exact ⟨{ f with captured := f.captured || marked k }, by rw [hmarked, hk, Option.map_some], rfl⟩
  | some parent =>
    have hframe := h.sound.filed.frame?_push env m.arena.nextFrame
    rw [if_pos rfl] at hframe
    change openCaptured (.extension name methods) env "super" (.class_ parent) m = _ at hrun
    unfold openCaptured at hrun
    rw [opening_apply hframe] at hrun
    cases hrun
    obtain ⟨marked, hmarked⟩ := Arena.frame?_capture
      (m.opened (.extension name methods) env "super" (.class_ parent)).arena m.arena.nextFrame
    have hopened : (m.opened (.extension name methods) env "super"
        (.class_ parent)).arena.frame? k = some f := by
      refine (Arena.frame?_bind _ _ hframe k).trans ?_
      rw [if_neg, h.sound.filed.frame?_push_of_live env ⟨f, hk⟩, hk]
      rintro rfl
      exact h.sound.filed.not_live_nextFrame ⟨f, hk⟩
    exact ⟨{ f with captured := f.captured || marked k },
      by rw [hmarked, hopened, Option.map_some], rfl⟩

theorem follows_methodScope (h : Similar ρ m m') (henv : Points ρ m env env') (name : Name)
    (methods : List Routine) {parent parent' : Option Class} (hparent : Holds ρ m parent parent') :
    (methodScope name methods env parent m).Follows A B ρ m
      (methodScope name methods env' parent' m') := by
  obtain ⟨hwithin, rfl⟩ := hparent
  cases parent with
  | none =>
    refine follows_bind_of_done (follows_capture h henv) fun ρ₁ m₁ m₁' _ _ hdone hlead hsim _ ↦ ?_
    refine follows_pure hsim ⟨?_, (henv.later hlead).renamed.symm⟩
    cases hdone
    exact henv.live.captured_capture
  | some c =>
    have hclass : Holds ρ m (Value.class_ c) (.class_ (rename ρ c)) := ⟨hwithin c rfl, rfl⟩
    exact follows_openCaptured h henv _ "super" hclass

theorem follows_declareClass (h : Similar ρ m m') (henv : Points ρ m env env') (name : Name)
    (superclass : Option Superclass) (methods : List Routine) :
    (declareClass name superclass methods env m).Follows A B ρ m
      (declareClass name superclass methods env' m') := by
  rw [declareClass_eq, declareClass_eq]
  refine follows_bind (follows_superclassValue h henv superclass)
    fun ρ₁ m₁ m₁' parent parent' hlead hsim hparent ↦ ?_
  have henv₁ := henv.later hlead
  have hnil : Holds ρ₁ m₁ Value.nil .nil := ⟨trivial, rfl⟩
  refine follows_bind_of_done (follows_define hsim henv₁ name.text hnil)
    fun ρ₂ m₂ m₂' _ _ hdefine hlead₂ hsim₂ _ ↦ ?_
  have hparent₂ := hparent.later hlead₂
  refine follows_bind_of_done (follows_methodScope hsim₂ (henv₁.later hlead₂) name methods hparent₂)
    fun ρ₃ m₃ m₃' frame frame' hscope hlead₃ hsim₃ hframe ↦ ?_
  have hparent₃ := hparent₂.later hlead₃
  have henv₃ := (henv₁.later hlead₂).later hlead₃
  refine follows_bind_of_done (follows_fresh hsim₃)
    fun ρ₄ m₄ m₄' id id' hfresh hlead₄ hsim₄ hid ↦ ?_
  have hparent₄ := hparent₃.later hlead₄
  have hframe₄ := hframe.later hlead₄
  -- the name is still where it was put before the methods got their frame
  obtain ⟨f, hf⟩ := henv₁.live
  rw [define_eq hf] at hdefine
  cases hdefine
  obtain ⟨f₃, hf₃, hvalues⟩ := values_methodScope hsim₂.tidy hscope
    ((Arena.frame?_bind name.text .nil hf env).trans (if_pos rfl))
  have hname : f₃.values.contains name.text = true := by
    rw [hvalues]
    simp
  cases hfresh
  obtain ⟨-, rfl⟩ := hid
  refine follows_assign_of_contains hsim₄ name.text name.line hf₃ hname
    (henv₃.later hlead₄).renamed ?_
  obtain ⟨hparentwithin, rfl⟩ := hparent₄
  obtain ⟨hframewithin, rfl⟩ := hframe₄
  refine ⟨fun layer hlayer ↦ ?_, ?_⟩
  · rcases List.mem_cons.1 hlayer with rfl | hlayer
    · exact within_methodTable methods hframewithin
    · cases parent with
      | none => cases hlayer
      | some c => exact hparentwithin c rfl layer hlayer
  · rw [methodTable_rename]
    cases parent <;> rfl

/-! ### Statements -/

theorem follows_optional (hsub : sub.Follows A B sub') (h : Similar ρ m m')
    (henv : Points ρ m env env') (e? : Option Expr) :
    (optional sub env e? m).Follows A B ρ m (optional sub' env' e? m') := by
  cases e? with
  | none => exact follows_pure h ⟨trivial, rfl⟩
  | some e => exact hsub.evaluate e h henv

theorem follows_rounds (hsub : sub.Follows A B sub') (h : Similar ρ m m')
    (henv : Points ρ m env env') (test : Expr) (body : Stmt) (fuel : Nat) :
    (rounds (sub.evaluate test env) (sub.execute body env) fuel m).Follows A B ρ m
      (rounds (sub'.evaluate test env') (sub'.execute body env') fuel m') := by
  induction fuel generalizing ρ m m' with
  | zero => exact .outOfFuel
  | succ fuel ih =>
    rw [rounds_succ, rounds_succ]
    refine follows_bind (hsub.evaluate test h henv) fun ρ₁ m₁ m₁' v v' hlead hsim hv ↦ ?_
    have htruthy : v'.truthy = v.truthy := by rw [hv.renamed, Value.truthy_rename]
    rw [htruthy]
    split
    · refine follows_bind (hsub.execute body hsim (henv.later hlead))
        fun ρ₂ m₂ m₂' flow flow' hlead₂ hsim₂ hflow ↦ ?_
      obtain ⟨hwithin, rfl⟩ := hflow
      cases flow with
      | normal => exact ih hsim₂ ((henv.later hlead).later hlead₂)
      | returned w => exact follows_pure hsim₂ ⟨hwithin, rfl⟩
    · exact follows_pure hsim ⟨trivial, rfl⟩

theorem follows_execute (hsub : sub.Follows A B sub') (h : Similar ρ m m')
    (henv : Points ρ m env env') (fuel : Nat) (s : Stmt) :
    (execute fuel sub s env m).Follows A B ρ m (execute fuel sub' s env' m') := by
  have hnormal {ρ : FrameId → FrameId} {m m' : Machine} (h : Similar ρ m m') :
      ((Pure.pure Flow.normal : Action Flow) m).Follows A B ρ m
        ((Pure.pure Flow.normal : Action Flow) m') := follows_pure h ⟨trivial, rfl⟩
  cases s with
  | expression value =>
    exact follows_bind (hsub.evaluate value h henv) fun ρ₁ m₁ m₁' _ _ _ hsim _ ↦ hnormal hsim
  | print value =>
    refine follows_bind (hsub.evaluate value h henv) fun ρ₁ m₁ m₁' v v' _ hsim hv ↦ ?_
    have htext : v'.text = v.text := by rw [hv.renamed, Value.text_rename]
    rw [htext]
    exact follows_bind (follows_write hsim _) fun ρ₂ m₂ m₂' _ _ _ hsim₂ _ ↦ hnormal hsim₂
  | var name initial =>
    refine follows_bind (follows_optional hsub h henv initial)
      fun ρ₁ m₁ m₁' v v' hlead hsim hv ↦ ?_
    exact follows_bind (follows_define hsim (henv.later hlead) name.text hv)
      fun ρ₂ m₂ m₂' _ _ _ hsim₂ _ ↦ hnormal hsim₂
  | block body =>
    exact follows_within h henv (.block body) fun ρ₁ frame frame' _ hsim hframe ↦
      follows_executeAll hsub hsim hframe body
  | ifThen test consequent =>
    refine follows_bind (hsub.evaluate test h henv) fun ρ₁ m₁ m₁' v v' hlead hsim hv ↦ ?_
    have htruthy : v'.truthy = v.truthy := by rw [hv.renamed, Value.truthy_rename]
    rw [htruthy]
    split
    · exact hsub.execute consequent hsim (henv.later hlead)
    · exact hnormal hsim
  | ifElse test consequent alternative =>
    refine follows_bind (hsub.evaluate test h henv) fun ρ₁ m₁ m₁' v v' hlead hsim hv ↦ ?_
    have htruthy : v'.truthy = v.truthy := by rw [hv.renamed, Value.truthy_rename]
    rw [htruthy]
    split
    · exact hsub.execute consequent hsim (henv.later hlead)
    · exact hsub.execute alternative hsim (henv.later hlead)
  | loop test body => exact follows_rounds hsub h henv test body fuel
  | function r =>
    exact follows_bind (follows_declareFunction h henv r) fun ρ₁ m₁ m₁' _ _ _ hsim _ ↦
      hnormal hsim
  | return_ line value =>
    refine follows_bind (follows_optional hsub h henv value) fun ρ₁ m₁ m₁' v v' _ hsim hv ↦ ?_
    exact follows_pure hsim ⟨hv.within, congrArg Flow.returned hv.renamed⟩
  | class_ name superclass methods =>
    exact follows_bind (follows_declareClass h henv name superclass methods)
      fun ρ₁ m₁ m₁' _ _ _ hsim _ ↦ hnormal hsim

end Evaluation

/-- With the same fuel a run on one machine follows a run on the other. -/
theorem follows_evaluator (fuel : Nat) : (evaluator fuel).Follows A B (evaluator fuel) := by
  induction fuel with
  | zero => exact ⟨fun _ _ _ _ _ ↦ .outOfFuel, fun _ _ _ _ _ ↦ .outOfFuel⟩
  | succ fuel ih =>
    exact ⟨fun e _ _ h henv ↦ Evaluation.follows_evaluate ih h henv e,
      fun s _ _ h henv ↦ Evaluation.follows_execute ih h henv fuel s⟩

end Lox
