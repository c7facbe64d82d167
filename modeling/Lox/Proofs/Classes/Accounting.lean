import Lox.Proofs.Classes.Supers

/-!
Evaluation accounts for what it answers and leaves behind, construct by construct. Where a method
becomes a value, that is one of the moments of the run; where a class is declared, so is that; and
nothing but these two makes bound methods and classes. So on a machine that accounts for all it
has, an evaluator whose parts do so proceeds to such a machine again (`accounts_evaluate`,
`accounts_execute`). Besides, an initializer answers what its frame held for `this` before.
-/

set_option autoImplicit false

namespace Lox

open Machine

variable {α β : Type} {moments : Guard} {D : Distances} {ss : List Stmt} {m m₁ : Machine}
  {good : α → Machine → Prop} {good' : β → Machine → Prop} {v : Value} {x : String}
  {env k : FrameId} {d : Declaring}

/-- An answer and a machine that are accounted for, or a failure of the inward kind. -/
def Outcome.Accounts (moments : Guard) (D : Distances) (m : Machine) (good : α → Machine → Prop)
    (o : Outcome α) : Prop :=
  o.Ends (fun a m₁ ↦ m.Proceeds moments D m₁ ∧ good a m₁) fun cause _ ↦ cause.Inward

/-- From every machine that is accounted for the evaluator proceeds. Where it has an answer, the
unwatched evaluator has the same. -/
structure Evaluator.Accounts (moments : Guard) (D : Distances) (sub : Evaluator) : Prop where
  evaluate : ∀ e env {m}, m.Accounted moments D →
    (sub.evaluate e env m).Accounts moments D m fun v m₁ ↦ v.Accounted moments m₁
  execute : ∀ s env {m}, m.Accounted moments D →
    (sub.execute s env m).Accounts moments D m fun flow m₁ ↦ flow.Accounted moments m₁
  plain : ∀ {e env m v m₁}, sub.evaluate e env m = .done v m₁ →
    ∃ fuel, (evaluator fuel).evaluate e env m = .done v m₁

/-- What a call answers from a machine: of a class, a new object; of an initializer, the object that
it is for. -/
def Target.Answers (m : Machine) (w : Value) : Target → Prop
  | .value (.class_ c) => w = .object ⟨m.fields.size, c⟩
  | .value (.function _ f) =>
    f.isInitializer = true → ∀ u, m.arena.valueIn? f.closure "this" = some u → w = u
  | .method f o => f.isInitializer = true → w = .object o
  | _ => True

namespace Action

/-! ### Putting actions together -/

theorem accounts_pure {a : α} (h : m.Accounted moments D) (ha : good a m) :
    ((Pure.pure a : Action α) m).Accounts moments D m good :=
  ⟨h.proceeds, ha⟩

/-- The first of two actions may have begun elsewhere, in a frame that has gone when it ends. -/
theorem accounts_bind_of_done {y : Action α} {f : α → Action β} {m₀ : Machine}
    (hy : (y m₀).Accounts moments D m good)
    (hf : ∀ a m₁, y m₀ = .done a m₁ → m.Proceeds moments D m₁ → good a m₁ →
      (f a m₁).Accounts moments D m₁ good') : ((y >>= f) m₀).Accounts moments D m good' :=
  ends_bind_of_done hy fun a m₁ hdone hm₁ ↦ (hf a m₁ hdone hm₁.1 hm₁.2).weaken
    fun _ _ hm₂ ↦ ⟨hm₁.1.trans hm₂.1, hm₂.2⟩

theorem accounts_bind {y : Action α} {f : α → Action β} {m₀ : Machine}
    (hy : (y m₀).Accounts moments D m good)
    (hf : ∀ a m₁, m.Proceeds moments D m₁ → good a m₁ → (f a m₁).Accounts moments D m₁ good') :
    ((y >>= f) m₀).Accounts moments D m good' :=
  accounts_bind_of_done hy fun a m₁ _ ↦ hf a m₁

theorem accounts_imp {o : Outcome α} {good' : α → Machine → Prop}
    (h : o.Accounts moments D m good) (hgood : ∀ a m₁, good a m₁ → good' a m₁) :
    o.Accounts moments D m good' :=
  Outcome.Ends.weaken h fun a m₁ hm₁ ↦ ⟨hm₁.1, hgood a m₁ hm₁.2⟩

/-- What has been done within a frame of its own, which is released at the end. -/
theorem accounts_releasing (h : m.Accounted moments D) {origin : Origin} {enclosing : FrameId}
    {y : Action α} {m₀ : Machine} (henters : m.Enters moments D origin enclosing m₀)
    (hy : (y m₀).Accounts moments D m₀ good)
    (hgood : ∀ a m₁, good a m₁ → good a { m₁ with arena := m₁.arena.release m.arena.nextFrame }) :
    (releasing m.arena.nextFrame y m₀).Accounts moments D m good :=
  ends_releasing (hy.weaken fun a m₁ hm₁ ↦
    ⟨(henters.trans hm₁.1 h).release h, hgood a m₁ hm₁.2⟩)

/-! ### Actions on machines -/

theorem accounts_define (h : m.Accounted moments D) (hv : v.Accounted moments m)
    (hx : x ∉ keywordNames) : (define k x v m).Accounts moments D m fun _ _ ↦ True := by
  cases hf : m.arena.frame? k with
  | none =>
    simp only [define, Arena.frame, hf]
    exact Failure.inward_fault _
  | some f =>
    rw [define_eq hf]
    exact ⟨h.proceeds_bind hf hv hx, trivial⟩

theorem accounts_getAt (h : m.Accounted moments D) (distance : Nat) :
    (getAt env distance x m).Accounts moments D m fun v m₁ ↦ m₁ = m ∧ v.Accounted moments m ∧
      ∃ k, m.arena.ancestor env distance = .ok k ∧ m.arena.valueIn? k x = some v := by
  unfold getAt Arena.getAt
  cases hwalk : m.arena.ancestor env distance with
  | error fault => exact Failure.inward_fault _
  | ok k =>
    cases hf : m.arena.frame? k with
    | none =>
      simp only [Arena.frame, hf]
      exact Failure.inward_fault _
    | some f =>
      simp only [Arena.frame, hf]
      cases hv : f.values.find? x with
      | none => exact Failure.inward_fault _
      | some v =>
        have hvalue : m.arena.valueIn? k x = some v := (Arena.valueIn?_of_frame? hf x).trans hv
        exact ⟨h.proceeds, rfl, h.value hvalue, k, rfl, hvalue⟩

theorem accounts_get (h : m.Accounted moments D) (line : Nat) :
    (get env x line m).Accounts moments D m fun v m₁ ↦ m₁ = m ∧ v.Accounted moments m := by
  unfold get Arena.get
  cases m.arena.holder env x with
  | error fault => exact Failure.inward_fault _
  | ok holder? =>
    cases holder? with
    | none => exact Failure.inward_runtime _ _
    | some k =>
      simp only [Except.map, Option.bind_some]
      cases hv : m.arena.valueIn? k x with
      | none => exact Failure.inward_runtime _ _
      | some v => exact ⟨h.proceeds, rfl, h.value hv⟩

theorem accounts_assignAt (h : m.Accounted moments D) (hv : v.Accounted moments m)
    (hx : x ∉ keywordNames) (distance : Nat) :
    (assignAt env distance x v m).Accounts moments D m fun _ _ ↦ True := by
  unfold assignAt
  split
  · exact accounts_define h hv hx
  · exact Failure.inward_fault _

theorem accounts_assign (h : m.Accounted moments D) (hv : v.Accounted moments m)
    (hx : x ∉ keywordNames) (line : Nat) :
    (assign env x v line m).Accounts moments D m fun _ _ ↦ True := by
  unfold assign
  split
  · exact accounts_define h hv hx
  · exact Failure.inward_runtime _ _
  · exact Failure.inward_fault _

theorem accounts_capture (h : m.Accounted moments D) (id : FrameId) :
    (capture id m).Accounts moments D m fun _ m₁ ↦
      m₁ = { m with arena := m.arena.capture id } :=
  ⟨h.capture id, rfl⟩

theorem accounts_fresh (h : m.Accounted moments D) :
    (fresh m).Accounts moments D m fun _ m₁ ↦ m₁ = { m with nextId := m.nextId + 1 } :=
  ⟨h.identified, rfl⟩

theorem accounts_now (h : m.Accounted moments D) :
    (now m).Accounts moments D m fun _ _ ↦ True :=
  ⟨h.aside rfl rfl rfl (Nat.le_refl _) h.fields, trivial⟩

theorem accounts_write (h : m.Accounted moments D) (text : String) :
    (write text m).Accounts moments D m fun _ _ ↦ True := by
  unfold write
  dsimp only
  split
  · exact ⟨h.aside rfl rfl rfl (Nat.le_refl _) h.fields, trivial⟩
  · exact Failure.inward_sinkFull

/-- A new object has an identity that none had before. -/
theorem accounts_newObject (h : m.Accounted moments D) {c : Class} (hc : c.Accounted moments m) :
    (newObject c m).Accounts moments D m fun o m₁ ↦
      o = ⟨m.fields.size, c⟩ ∧ o.Accounted moments m₁ := by
  have hproceeds : m.Proceeds moments D { m with fields := m.fields.push .empty } := by
    refine h.aside rfl rfl rfl (by simp) fun table htable x v hv ↦ ?_
    rcases Array.mem_push.1 htable with htable | rfl
    · exact h.fields table htable x v hv
    · simp at hv
  exact ⟨hproceeds, rfl, hc.keep hproceeds.keeps, by simp⟩

theorem accounts_field? (h : m.Accounted moments D) (o : Object) (name : String) :
    (field? o name m).Accounts moments D m fun v? m₁ ↦
      m₁ = m ∧ ∀ v, v? = some v → v.Accounted moments m := by
  refine ⟨h.proceeds, rfl, fun v hv ↦ ?_⟩
  obtain ⟨table, htable, hfind⟩ := Option.bind_eq_some_iff.1 hv
  exact h.fields table (Array.mem_of_getElem? htable) name v hfind

theorem accounts_setField (h : m.Accounted moments D) (o : Object) (name : String)
    (hv : v.Accounted moments m) :
    (setField o name v m).Accounts moments D m fun _ _ ↦ True := by
  refine ⟨h.aside rfl rfl rfl (by simp) fun table htable x w hw ↦ ?_, trivial⟩
  obtain ⟨i, hi, rfl⟩ := Array.mem_iff_getElem.1 htable
  have hold := h.fields _ (Array.getElem_mem (by simpa using hi))
  rw [Array.getElem_modify] at hw
  split at hw
  · rw [Bindings.find?_insert] at hw
    split at hw
    · cases hw
      exact hv
    · exact hold x w hw
  · exact hold x w hw

end Action

namespace Evaluation

open Lox.Action

variable {sub : Evaluator}

/-! ### Calls -/

theorem accounts_evaluateAll (hsub : sub.Accounts moments D) (h : m.Accounted moments D)
    (env : FrameId) (es : List Expr) :
    (evaluateAll sub env es m).Accounts moments D m fun vs m₁ ↦
      ∀ v ∈ vs, v.Accounted moments m₁ := by
  induction es generalizing m with
  | nil => exact accounts_pure h fun _ hv ↦ absurd hv List.not_mem_nil
  | cons e es ih =>
    refine accounts_bind (hsub.evaluate e env h) fun v m₁ hm₁ hv ↦ ?_
    refine accounts_bind (ih hm₁.accounted) fun vs m₂ hm₂ hvs ↦ ?_
    refine accounts_pure hm₂.accounted fun w hw ↦ ?_
    rcases List.mem_cons.1 hw with rfl | hw
    · exact hv.keep hm₂.keeps
    · exact hvs w hw

theorem accounts_executeAll (hsub : sub.Accounts moments D) (h : m.Accounted moments D)
    (env : FrameId) (body : List Stmt) :
    (executeAll sub env body m).Accounts moments D m fun flow m₁ ↦
      flow.Accounted moments m₁ := by
  induction body generalizing m with
  | nil => exact accounts_pure h trivial
  | cons s body ih =>
    refine accounts_bind (hsub.execute s env h) fun flow m₁ hm₁ hflow ↦ ?_
    cases flow with
    | normal => exact ih hm₁.accounted
    | returned v => exact accounts_pure hm₁.accounted hflow

theorem accounts_callFunction (hsub : sub.Accounts moments D) (h : m.Accounted moments D)
    (f : Function) {args : List Value} (hargs : ∀ v ∈ args, v.Accounted moments m) :
    (callFunction sub f args m).Accounts moments D m fun v m₁ ↦ v.Accounted moments m₁ ∧
      (f.isInitializer = true → ∀ w, m.arena.valueIn? f.closure "this" = some w → v = w) := by
  have henters : m.Enters moments D (.call f.routine) f.closure (m.entered f args) := by
    refine h.openedWith ⟨fun x v hv ↦ ?_, fun r hr ↦ by cases hr⟩
    exact hargs v (List.of_mem_zip (Bindings.mem_of_find?_ofList hv)).2
  rw [callFunction_apply h.filed]
  refine accounts_bind (accounts_releasing h henters
    (accounts_executeAll hsub henters.accounted m.arena.nextFrame f.routine.body)
    fun flow m₁ hflow ↦ Flow.Accounted.keep hflow (m₁.keeps_release _)) fun flow m₁ hm₁ hflow ↦ ?_
  by_cases hinit : f.isInitializer = true
  · rw [if_pos hinit]
    refine accounts_imp (accounts_getAt hm₁.accounted 0) fun v m₂ hv ↦ ?_
    obtain ⟨rfl, hv, k, hwalk, hvalue⟩ := hv
    refine ⟨hv, fun _ w hw ↦ ?_⟩
    obtain rfl : f.closure = k := Except.ok.inj hwalk
    have hlive : m.arena.Live f.closure :=
      let ⟨g, hg, _⟩ := Option.bind_eq_some_iff.1 hw
      ⟨g, hg⟩
    rw [hm₁.keywords _ hlive "this" (by simp [keywordNames]), hw] at hvalue
    exact (Option.some.inj hvalue).symm
  · rw [if_neg hinit]
    refine accounts_pure hm₁.accounted ⟨?_, fun hyes ↦ absurd hyes hinit⟩
    cases flow with
    | normal => trivial
    | returned v => exact hflow

variable {f : Function} {o : Object}

/-- A frame for the receiver of a method. -/
theorem enters_received (h : m.Accounted moments D) (hf : f.MethodOf moments m o)
    (ho : o.Accounted moments m) :
    m.Enters moments D (.receiver f.routine) f.closure (m.received f o) ∧
      (m.received f o).arena.valueIn? m.arena.nextFrame "this" = some (.object o) := by
  have hthis : (Bindings.empty.insert "this" (.object o) : Bindings String Value).find? "this" =
      some (.object o) := by simp
  refine ⟨h.openedWith ⟨fun x v hv ↦ ?_, fun r hr ↦ ?_⟩, ?_⟩
  · rw [Bindings.find?_insert] at hv
    split at hv
    · cases hv
      exact ho
    · simp at hv
  · cases hr
    exact ⟨f, o, rfl, hf, rfl, hthis⟩
  · exact (h.filed.valueIn?_openedWith _ _ _ _).trans hthis

theorem accounts_invoke (hsub : sub.Accounts moments D) (h : m.Accounted moments D)
    (hf : f.MethodOf moments m o) (ho : o.Accounted moments m) {args : List Value}
    (hargs : ∀ v ∈ args, v.Accounted moments m) :
    (invoke sub f o args m).Accounts moments D m fun v m₁ ↦ v.Accounted moments m₁ ∧
      (f.isInitializer = true → v = .object o) := by
  obtain ⟨henters, hthis⟩ := enters_received h hf ho
  have hkeeps : m.Keeps (m.received f o) := h.keeps_openedWith _ _ _
  rw [invoke_received h.filed]
  refine accounts_releasing h henters (accounts_imp (accounts_callFunction hsub henters.accounted
    { f with closure := m.arena.nextFrame } fun v hv ↦ (hargs v hv).keep hkeeps)
    fun v m₁ hv ↦ ?_) fun v m₁ hv ↦ ⟨hv.1.keep (m₁.keeps_release _), hv.2⟩
  exact ⟨hv.1, fun hinit ↦ hv.2 hinit _ hthis⟩

/-- A method that becomes a value at one of the moments. -/
theorem accounts_toValue (h : m.Accounted moments D) {t : Target} (ht : t.Accounted moments m)
    (hmoment : ∀ f o, t = .method f o → ∃ e env m₀ fuel, moments (.expr e) env m₀ ∧
      target (evaluator fuel) e env m₀ = .done (.method f o) m) :
    (Target.toValue t m).Accounts moments D m fun v m₁ ↦ v.Accounted moments m₁ := by
  cases t with
  | value v => exact accounts_pure h ht
  | method f o =>
    obtain ⟨hf, ho⟩ := ht
    obtain ⟨e, env, m₀, fuel, hmoment, htarget⟩ := hmoment f o rfl
    obtain ⟨henters, hthis⟩ := enters_received h hf ho
    have hcaptured := henters.capture h
    have hvalue := toValue_received h.filed f o
    rw [hvalue]
    refine ⟨hcaptured.trans hcaptured.accounted.identified, Or.inr ⟨?_, ?_, ?_, o, ?_, e, env, m₀,
      fuel, f, m, _, hmoment, htarget, hvalue⟩⟩
    · exact (h.filed.live_openedWith _ _ _).captured_capture
    · exact (h.origins_pushed (.receiver f.routine) f.closure _).trans (if_pos rfl)
    · exact hf.isInitializer
    · exact (Arena.valueIn?_capture _ _ _).trans hthis

theorem accounts_property (h : m.Accounted moments D) (hv : v.Accounted moments m) (name : Name) :
    (property v name m).Accounts moments D m fun t m₁ ↦ t.Accounted moments m₁ := by
  cases v with
  | object o =>
    have ho : o.Accounted moments m := hv
    refine accounts_bind (accounts_field? h o name.text) fun value m₁ hm₁ hvalue ↦ ?_
    obtain ⟨rfl, hvalue⟩ := hvalue
    cases value with
    | some w => exact accounts_pure h (hvalue w rfl)
    | none =>
      cases hf : o.class_.method? name.text with
      | some f => exact accounts_pure h ⟨ho.class_.method? (List.suffix_refl _) hf, ho⟩
      | none => exact Failure.inward_runtime _ _
  | _ => exact Failure.inward_runtime _ _

theorem accounts_superMethod {Δ : Setting} {n : Node} {id : NodeId} {line : Nat} {method : Name}
    (hsited : moments.Sited ss D) (h : m.Accounted moments D) (hn : MirroredIn ss Δ n env m)
    (hsite : Site ss Δ (.expr (.super id line method))) :
    (superMethod id method env m).Accounts moments D m fun t m₁ ↦ t.Accounted moments m₁ := by
  obtain ⟨c, o, ⟨d, g, -, hprovides, hparent, -, -⟩, ho, heq⟩ := superMethod_eq hsited h hn hsite
  rw [heq]
  split
  next f hf => exact ⟨h.proceeds, ho.class_.method? (hprovides.extends_ hparent) hf, ho⟩
  next => exact Failure.inward_runtime _ _

theorem accounts_target (hsited : moments.Sited ss D) (hsub : sub.Accounts moments D)
    (h : m.Accounted moments D) {Δ : Setting} {n : Node} (hn : MirroredIn ss Δ n env m)
    {callee : Expr} (hsite : Site ss Δ (.expr callee)) :
    (target sub callee env m).Accounts moments D m fun t m₁ ↦ t.Accounted moments m₁ := by
  have hother {e : Expr} : ((sub.evaluate e env >>= fun v ↦ Pure.pure (Target.value v)) m).Accounts
      moments D m fun t m₁ ↦ t.Accounted moments m₁ :=
    accounts_bind (hsub.evaluate e env h) fun v m₁ hm₁ hv ↦ accounts_pure hm₁.accounted hv
  cases callee with
  | get object name =>
    exact accounts_bind (hsub.evaluate object env h) fun v m₁ hm₁ hv ↦
      accounts_property hm₁.accounted hv name
  | super id line method => exact accounts_superMethod hsited h hn hsite
  | _ => exact hother

/-- An object that did not exist before, which is what its initializer answers. -/
theorem accounts_instantiate (hsub : sub.Accounts moments D) (h : m.Accounted moments D)
    {c : Class} (hc : c.Accounted moments m) {args : List Value}
    (hargs : ∀ v ∈ args, v.Accounted moments m) :
    (instantiate sub c args m).Accounts moments D m fun v m₁ ↦
      v.Accounted moments m₁ ∧ v = .object ⟨m.fields.size, c⟩ := by
  refine accounts_bind (accounts_newObject h hc) fun o m₁ hm₁ ho ↦ ?_
  obtain ⟨rfl, ho⟩ := ho
  cases hf : c.method? initializerName with
  | none => exact accounts_pure hm₁.accounted ⟨ho, rfl⟩
  | some f =>
    have hmethod : f.MethodOf moments m₁ ⟨m.fields.size, c⟩ :=
      ho.class_.method? (List.suffix_refl _) hf
    refine accounts_bind (accounts_invoke hsub hm₁.accounted hmethod ho fun v hv ↦
      (hargs v hv).keep hm₁.keeps) fun v m₂ hm₂ _ ↦ ?_
    exact accounts_pure hm₂.accounted ⟨ho.keep hm₂.keeps, rfl⟩

theorem accounts_checkArity (h : m.Accounted moments D) (line expected given : Nat) :
    (checkArity line expected given m).Accounts moments D m fun _ m₁ ↦ m₁ = m := by
  unfold checkArity
  split
  · exact accounts_pure h rfl
  · exact Failure.inward_runtime _ _

theorem accounts_callValue (hsub : sub.Accounts moments D) (h : m.Accounted moments D)
    (hv : v.Accounted moments m) (line : Nat) {args : List Value}
    (hargs : ∀ w ∈ args, w.Accounted moments m) :
    (callValue sub v line args m).Accounts moments D m fun w m₁ ↦
      w.Accounted moments m₁ ∧ (Target.value v).Answers m w := by
  cases v with
  | native native =>
    rcases callValue_native sub native line args with heq | ⟨w, heq, hplain⟩ | ⟨cause, heq⟩
    · rw [heq]
      exact accounts_bind (accounts_now h) fun time m₁ hm₁ _ ↦
        accounts_pure hm₁.accounted ⟨trivial, trivial⟩
    · rw [heq]
      exact accounts_pure h ⟨hplain.accounted, trivial⟩
    · rw [heq]
      exact Failure.inward_runtime _ _
  | function id f => exact accounts_callFunction hsub h f hargs
  | class_ c => exact accounts_instantiate hsub h hv hargs
  | _ => exact Failure.inward_runtime _ _

theorem accounts_callTarget (hsub : sub.Accounts moments D) (h : m.Accounted moments D)
    {t : Target} (ht : t.Accounted moments m) (line : Nat) {args : List Value}
    (hargs : ∀ w ∈ args, w.Accounted moments m) :
    (callTarget sub t line args m).Accounts moments D m fun w m₁ ↦
      w.Accounted moments m₁ ∧ t.Answers m w := by
  cases t with
  | method f o =>
    refine accounts_bind (accounts_checkArity h line f.arity args.length) fun _ m₁ _ hm₁ ↦ ?_
    subst hm₁
    exact accounts_invoke hsub h ht.1 ht.2 hargs
  | value v =>
    simp only [callTarget]
    cases v.arity? with
    | none => exact Failure.inward_runtime _ _
    | some arity =>
      refine accounts_bind (accounts_checkArity h line arity args.length) fun _ m₁ _ hm₁ ↦ ?_
      subst hm₁
      exact accounts_callValue hsub h ht line hargs

/-! ### Expressions -/

theorem accounts_lookUp (h : m.Accounted moments D) (id : NodeId) (x : String) (line : Nat)
    (env : FrameId) :
    (lookUp id x line env m).Accounts moments D m fun v m₁ ↦ m₁ = m ∧ v.Accounted moments m := by
  rw [lookUp_apply]
  cases m.distances.find? id with
  | none => exact accounts_get h line
  | some distance => exact accounts_imp (accounts_getAt h distance) fun _ _ hv ↦ ⟨hv.1, hv.2.1⟩

/-- The value of a name, on the machine as it is. -/
theorem accounts_read (h : m.Accounted moments D) (id : NodeId) (x : String) (line : Nat)
    (env : FrameId) :
    (lookUp id x line env m).Accounts moments D m fun v m₁ ↦ v.Accounted moments m₁ :=
  accounts_imp (accounts_lookUp h id x line env) fun _ _ hv ↦ hv.1 ▸ hv.2

theorem accounts_store (h : m.Accounted moments D) (hv : v.Accounted moments m) (id : NodeId)
    {name : Name} (hname : name.text ∉ keywordNames) (env : FrameId) :
    (store id name v env m).Accounts moments D m fun _ _ ↦ True := by
  rw [store_apply]
  cases m.distances.find? id with
  | none => exact accounts_assign h hv hname name.line
  | some distance => exact accounts_assignAt h hv hname distance

theorem plain_literal (value : Literal) : value.value.Plain := by
  cases value <;> trivial

theorem plain_numeric (op : BinaryOp) (a b : Number) : (numeric op a b).Plain := by
  cases op <;> trivial

theorem accounts_unary (h : m.Accounted moments D) (op : UnaryOp) (line : Nat) (v : Value) :
    (unary op line v m).Accounts moments D m fun w m₁ ↦ w.Accounted moments m₁ := by
  unfold unary
  split
  · exact accounts_pure h trivial
  · exact accounts_pure h trivial
  · exact Failure.inward_runtime _ _

theorem accounts_binary (h : m.Accounted moments D) (op : BinaryOp) (line : Nat) (v w : Value) :
    (binary op line v w m).Accounts moments D m fun u m₁ ↦ u.Accounted moments m₁ := by
  unfold binary
  split
  · exact accounts_pure h trivial
  · exact accounts_pure h trivial
  · exact accounts_pure h (plain_numeric _ _ _).accounted
  · exact accounts_pure h trivial
  · exact Failure.inward_runtime _ _
  · exact Failure.inward_runtime _ _

/-- What the parts of a callee stand for does not depend on whether they are watched. -/
theorem target_plain (hsub : sub.Accounts moments D) {callee : Expr} {t : Target}
    (hdone : target sub callee env m = .done t m₁) :
    ∃ fuel, target (evaluator fuel) callee env m = .done t m₁ := by
  have hpart {e : Expr} {next : Value → Action Target}
      (hdone : (sub.evaluate e env >>= next) m = .done t m₁) :
      ∃ fuel, ((evaluator fuel).evaluate e env >>= next) m = .done t m₁ := by
    rw [bind_apply] at hdone
    cases he : sub.evaluate e env m with
    | done v m₂ =>
      obtain ⟨fuel, hplain⟩ := hsub.plain he
      simp only [he] at hdone
      exact ⟨fuel, by simp only [bind_apply, hplain, hdone]⟩
    | _ => simp [he] at hdone
  cases callee with
  | get object name => exact hpart hdone
  | super id line method => exact ⟨0, hdone⟩
  | _ => exact hpart hdone

/-- What is looked up in a value, or in `super`, may be a method that now becomes a value. -/
theorem accounts_access (hsited : moments.Sited ss D) (hsub : sub.Accounts moments D)
    (h : m.Accounted moments D) {e : Expr} (hmoment : moments (.expr e) env m) :
    ((target sub e env >>= Target.toValue) m).Accounts moments D m fun v m₁ ↦
      v.Accounted moments m₁ := by
  obtain ⟨Δ, hn⟩ := hsited.mirrored _ _ _ hmoment
  refine accounts_bind_of_done (accounts_target hsited hsub h hn hn.site)
    fun t m₁ hdone hm₁ ht ↦ accounts_toValue hm₁.accounted ht fun f o heq ↦ ?_
  obtain ⟨fuel, hplain⟩ := target_plain hsub hdone
  exact ⟨e, env, m, fuel, hmoment, heq ▸ hplain⟩

theorem accounts_evaluate (hsited : moments.Sited ss D) (hsub : sub.Accounts moments D)
    (h : m.Accounted moments D) {e : Expr} (hmoment : moments (.expr e) env m) :
    (evaluate sub e env m).Accounts moments D m fun v m₁ ↦ v.Accounted moments m₁ := by
  obtain ⟨Δ, hn⟩ := hsited.mirrored _ _ _ hmoment
  cases e with
  | literal value => exact accounts_pure h (plain_literal value).accounted
  | grouping inner => exact hsub.evaluate inner env h
  | unary op line operand =>
    exact accounts_bind (hsub.evaluate operand env h) fun v m₁ hm₁ _ ↦
      accounts_unary hm₁.accounted op line v
  | binary op line left right =>
    exact accounts_bind (hsub.evaluate left env h) fun v m₁ hm₁ _ ↦
      accounts_bind (hsub.evaluate right env hm₁.accounted) fun w m₂ hm₂ _ ↦
        accounts_binary hm₂.accounted op line v w
  | logical op line left right =>
    refine accounts_bind (hsub.evaluate left env h) fun v m₁ hm₁ hv ↦ ?_
    split
    · exact accounts_pure hm₁.accounted hv
    · exact hsub.evaluate right env hm₁.accounted
  | var id name => exact accounts_read h id name.text name.line env
  | assign id name value =>
    have hname : name.text ∉ keywordNames := (hn.site.wellRead hsited.wellRead).here
    refine accounts_bind (hsub.evaluate value env h) fun v m₁ hm₁ hv ↦ ?_
    refine accounts_bind (accounts_store hm₁.accounted hv id hname env) fun _ m₂ hm₂ _ ↦ ?_
    exact accounts_pure hm₂.accounted (hv.keep hm₂.keeps)
  | call callee line args =>
    refine accounts_bind (accounts_target hsited hsub h hn (hn.site.part .callee))
      fun t m₁ hm₁ ht ↦ ?_
    refine accounts_bind (accounts_evaluateAll hsub hm₁.accounted env args)
      fun vs m₂ hm₂ hvs ↦ ?_
    exact accounts_imp (accounts_callTarget hsub hm₂.accounted (ht.keep hm₂.keeps) line hvs)
      fun v m₃ hv ↦ hv.1
  | get object name =>
    have heq : evaluate sub (.get object name) env =
        target sub (.get object name) env >>= Target.toValue := by
      simp only [evaluate, target, bind_assoc]
    rw [heq]
    exact accounts_access hsited hsub h hmoment
  | set object name value =>
    refine accounts_bind (hsub.evaluate object env h) fun receiver m₁ hm₁ _ ↦ ?_
    cases receiver with
    | object o =>
      refine accounts_bind (hsub.evaluate value env hm₁.accounted) fun v m₂ hm₂ hv ↦ ?_
      refine accounts_bind (accounts_setField hm₂.accounted o name.text hv) fun _ m₃ hm₃ _ ↦ ?_
      exact accounts_pure hm₃.accounted (hv.keep hm₃.keeps)
    | _ => exact Failure.inward_runtime _ _
  | this id line => exact accounts_read h id "this" line env
  | super id line method => exact accounts_access hsited hsub h hmoment

end Evaluation

end Lox
