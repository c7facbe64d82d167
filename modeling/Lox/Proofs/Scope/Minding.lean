import Lox.Proofs.Scope.Fitting

/-!
Runs in which frames mirror scopes, construct by construct. If the evaluator of the parts works
in frames that mirror the scopes around each node, so does the whole: what a construct opens is
made for the scope of its part, what it declares is then complete, and a call goes on in the
frames around the routine that is called. A run so kept ends with a runtime error, if with any,
but for one case: the variable whose initial value is awaited cannot be assigned to before it has
been declared.
-/

set_option autoImplicit false

namespace Lox

open Machine Lox.Action

/-- An evaluator that is set to work where a node stands, and leads to machines that fit. -/
structure Evaluator.Minds (ss : List Stmt) (bad : Failure → Prop) (sub : Evaluator) : Prop where
  evaluate : ∀ {m env Δ e}, m.Fits ss → Stands ss m env Δ (.expr e) →
    (sub.evaluate e env m).Ends (fun v m₁ ↦ m.Comes ss env [] m₁ ∧ v.Fits ss m₁)
      fun cause _ ↦ bad cause
  execute : ∀ {m env Δ s}, m.Fits ss → Stands ss m env Δ (.stmt s) →
    (sub.execute s env m).Ends (fun flow m₁ ↦ m.Comes ss env s.declared m₁ ∧ flow.Fits ss m₁ Δ)
      fun cause _ ↦ bad cause

variable {ss : List Stmt} {m m₁ : Machine} {env k : FrameId} {names : List String} {Δ : Setting}
  {c : Code} {x : String} {v : Value} {bad : Failure → Prop} {sub : Evaluator}

/-! ### Frames that are opened -/

/-- A machine that retains its frames releases none. -/
theorem Machine.Fits.release_eq (h : m.Fits ss) (k : FrameId) :
    { m with arena := m.arena.release k } = m := by
  rw [Arena.release_of_retains h.retains]

/-- What happens within a frame of its own gives the frames around no names. -/
theorem Action.comes_within {α : Type} (h : m.Fits ss) (origin : Origin) (k env : FrameId)
    {x : FrameId → Action α} {good : α → Machine → Prop}
    (hx : (x m.arena.nextFrame (m.pushed origin k)).Ends
      (fun a m₁ ↦ (∃ names, (m.pushed origin k).Comes ss m.arena.nextFrame names m₁) ∧ good a m₁)
      fun cause _ ↦ bad cause) :
    ((push origin k >>= fun frame ↦ releasing frame (x frame)) m).Ends
      (fun a m₁ ↦ m.Comes ss env [] m₁ ∧ good a m₁) fun cause _ ↦ bad cause := by
  change (releasing _ _ (m.pushed origin k)).Ends _ _
  refine ends_releasing (hx.weaken ?_)
  rintro a m₁ ⟨⟨names, hcomes⟩, hgood⟩
  rw [hcomes.fits.release_eq]
  have hall := (h.pushed origin k m.arena.nextFrame).trans hcomes
  exact ⟨⟨hall.fits, hall.grows.forget h.not_live_nextFrame env⟩, hgood⟩

/-- A frame with one name, for a scope that has no other. -/
theorem Machine.Fits.opened (h : m.Fits ss) (hmirrors : m.Mirrors k Δ) {s : OpenScope}
    (hs : s.complete = [x]) (hv : v.Fits ss m) (hsuits : v.Suits x)
    (hx : x ∈ s.origin.declares) (env : FrameId) :
    m.Comes ss env [] (m.opened s.origin k x v) ∧
      (m.opened s.origin k x v).Mirrors m.arena.nextFrame (s :: Δ) := by
  have hpushed := h.pushed s.origin k m.arena.nextFrame
  have hframe := (h.frame?_push k m.arena.nextFrame).trans (if_pos rfl)
  have horigin := (h.origins_pushed s.origin k m.arena.nextFrame).trans (if_pos rfl)
  have hbound : (m.pushed s.origin k).Comes ss m.arena.nextFrame [x]
      (m.opened s.origin k x v) := by
    have hnames : ∀ y, (x = y ∨ Bindings.contains (.empty : Bindings String Value) y = true) ↔
        Bindings.contains (.empty : Bindings String Value) y = true ∨ y ∈ [x] := fun y ↦ by
      rw [List.mem_singleton, or_comm, @eq_comm _ x]
    exact hpushed.fits.bind hframe ((hv.grow hpushed.grows).grow (grows_bind hframe hnames))
      hsuits (fun _ ↦ ⟨s.origin, horigin, hx⟩) hnames
  have hall := hpushed.trans hbound
  refine ⟨⟨hall.fits, hall.grows.forget h.not_live_nextFrame env⟩, ?_⟩
  obtain ⟨f, hf, henclosing, hnames⟩ := hbound.grows.frames _ _ hframe
  refine .scope hf henclosing ((hbound.grows.origins _ ⟨_, hframe⟩).trans horigin)
    (fun y hy ↦ (hnames y).2 (Or.inr ⟨rfl, hs ▸ hy⟩)) (hmirrors.grow hall.grows)

/-! ### Parameters and rows of statements -/

namespace Evaluation

theorem comes_defineParameters (h : m.Fits ss) (hlive : m.arena.Live env) (parameters : List Name)
    (hmay : ∀ name ∈ parameters, m.MayHold env name.text ∧ name.text ∉ keywordNames)
    {args : List Value} (hargs : ∀ v ∈ args, v.Fits ss m)
    (harity : parameters.length = args.length) :
    (defineParameters env parameters args m).Ends
      (fun _ m₁ ↦ m.Comes ss env (parameters.map Name.text) m₁) fun cause _ ↦ bad cause := by
  induction parameters generalizing m args with
  | nil => exact h.comes env
  | cons name parameters ih =>
    cases args with
    | nil => cases harity
    | cons v args =>
      obtain ⟨hhold, hplain⟩ := hmay name (List.mem_cons_self ..)
      refine ends_bind (comes_define h hlive
        (fun _ hgrows ↦ (hargs v (List.mem_cons_self ..)).grow hgrows)
        (Value.suits_of_plain hplain v) hhold) fun _ m₁ hcomes ↦ ?_
      have hrest := ih hcomes.fits (hcomes.grows.live hlive) (fun name' hname' ↦ ?_)
        (fun w hw ↦ (hargs w (List.mem_cons_of_mem _ hw)).grow hcomes.grows) (Nat.succ.inj harity)
      · exact hrest.weaken fun _ m₂ hcomes' ↦ hcomes.trans hcomes'
      · obtain ⟨hhold', hplain'⟩ := hmay name' (List.mem_cons_of_mem _ hname')
        refine ⟨fun hne ↦ ?_, hplain'⟩
        obtain ⟨o, ho, hx⟩ := hhold' hne
        exact ⟨o, (hcomes.grows.origins env hlive).trans ho, hx⟩

/-- Statements in a row, up to the first that returns. -/
theorem minds_executeAll (hsub : sub.Minds ss bad) (h : m.Fits ss) (body : List Stmt)
    (hstands : Stands ss m env Δ (.stmts body)) :
    (executeAll sub env body m).Ends
      (fun flow m₁ ↦ (∃ names, m.Comes ss env names m₁) ∧ flow.Fits ss m₁ Δ)
      fun cause _ ↦ bad cause := by
  induction body generalizing m Δ with
  | nil => exact ⟨⟨[], h.comes env⟩, trivial⟩
  | cons s body ih =>
    refine ends_bind (hsub.execute h (hstands.part .head)) ?_
    rintro flow m₁ ⟨hcomes, hflow⟩
    cases flow with
    | normal =>
      refine (ih hcomes.fits (hstands.tail h.live_globals hcomes.grows)).weaken ?_
      rintro flow m₂ ⟨⟨names, hcomes'⟩, hflow'⟩
      refine ⟨⟨_, hcomes.trans hcomes'⟩, ?_⟩
      cases flow with
      | normal => trivial
      | returned v => exact ⟨hflow'.1, Setting.inRoutine_completing.1 hflow'.2⟩
    | returned v => exact ⟨⟨_, hcomes⟩, hflow⟩

end Evaluation

/-! ### Names -/

namespace Evaluation

theorem minds_lookUp (hread : WellRead [] (.stmts ss)) (hbad : Tolerates bad) (h : m.Fits ss)
    (hmirrors : m.Mirrors env Δ) {id : NodeId} (huse : Site ss Δ (.use id x))
    (hcalm : ¬Δ.Awaiting x) (line : Nat) :
    (lookUp id x line env m).Ends (fun v m₁ ↦ m₁ = m ∧ v.Fits ss m ∧ v.Suits x)
      fun cause _ ↦ bad cause := by
  have hdistance := (h.settled Δ _ huse).distance id x rfl
  rw [lookUp_apply, hdistance]
  cases hd : Δ.distance? x with
  | none => exact comes_get_globals h hbad line
  | some d =>
    rcases (huse.orderly hread).complete_of_distance hd with ⟨s, hs, hx⟩ | ⟨-, -, hawaiting⟩
    · obtain ⟨v, hv, hfits⟩ := comes_getAt h hmirrors hs hx
      change (getAt env d x m).Ends _ _
      rw [hv]
      exact ⟨rfl, hfits⟩
    · exact absurd hawaiting hcalm

/-- A variable may be assigned to where it is found, unless it is awaited there. -/
theorem minds_store (hread : WellRead [] (.stmts ss)) (hbad : Tolerates bad) (h : m.Fits ss)
    (hmirrors : m.Mirrors env Δ) {id : NodeId} {name : Name} (huse : Site ss Δ (.use id name.text))
    (hplain : name.text ∉ keywordNames) (hv : v.Fits ss m)
    (hearly : Δ.Awaiting name.text → bad (.internal (.frame (.unassignable name.text 0 env)))) :
    (store id name v env m).Ends (fun _ m₁ ↦ m.Comes ss env [] m₁) fun cause _ ↦ bad cause := by
  have hdistance := (h.settled Δ _ huse).distance id name.text rfl
  have hsuits := Value.suits_of_plain hplain v
  rw [store_apply, hdistance]
  cases hd : Δ.distance? name.text with
  | none => exact comes_assign_globals h hbad name.line hv hsuits env
  | some d =>
    rcases (huse.orderly hread).complete_of_distance hd with ⟨s, hs, hx⟩ | ⟨rfl, -, hawaiting⟩
    · exact comes_assignAt h hmirrors hs hx hv hsuits
    · obtain ⟨f, hf⟩ := hmirrors.live h.live_globals
      by_cases hx : f.values.contains name.text = true
      · have hholder : m.arena.holderAt env 0 name.text = .ok env := by
          simp [Arena.holderAt, Arena.ancestor, Arena.ancestorFrom, Arena.frame_of_frame? hf, hx]
        change (assignAt env 0 name.text v m).Ends _ _
        unfold assignAt
        rw [hholder]
        exact comes_define_again h hf hx hv hsuits env
      · have hholder : m.arena.holderAt env 0 name.text =
            .error (.unassignable name.text 0 env) := by
          simp [Arena.holderAt, Arena.ancestor, Arena.ancestorFrom, Arena.frame_of_frame? hf, hx]
        change (assignAt env 0 name.text v m).Ends _ _
        unfold assignAt
        rw [hholder]
        exact hearly hawaiting

theorem minds_property (hbad : Tolerates bad) (h : m.Fits ss) (hv : v.Fits ss m) (name : Name) :
    (property v name m).Ends (fun t m₁ ↦ m₁ = m ∧ t.Fits ss m) fun cause _ ↦ bad cause := by
  cases v with
  | object o =>
    refine ends_bind_still (comes_field? h o name.text) fun v? hvalue ↦ ?_
    cases v? with
    | some v => exact ⟨rfl, hvalue v rfl⟩
    | none =>
      cases hfind : o.class_.method? name.text with
      | none => exact hbad.runtime _ _
      | some f => exact ⟨rfl, Class.Fits.method? hv hfind, hv⟩
  | _ => exact hbad.runtime _ _

/-- Around a method that may say `super` the frames hold the class that it means, and the object
that it is used on. -/
theorem minds_superMethod (hread : WellRead [] (.stmts ss)) (hbad : Tolerates bad)
    (h : m.Fits ss) (hmirrors : m.Mirrors env Δ) {id : NodeId} {line : Nat} {method : Name}
    (hsite : Site ss Δ (.expr (.super id line method))) :
    (superMethod id method env m).Ends (fun t m₁ ↦ m₁ = m ∧ t.Fits ss m)
      fun cause _ ↦ bad cause := by
  have howner := (h.settled Δ _ hsite).allowed
  have hdistance := (h.settled Δ _ (hsite.part .super)).distance id "super" rfl
  obtain ⟨inner, s, t, hd, hs, hsuper, ht, hthis⟩ :=
    (hsite.orderly hread).distance?_super howner
  obtain ⟨v, hv, hfits, hsuits⟩ := comes_getAt h hmirrors hs hsuper
  obtain ⟨c, rfl⟩ := hsuits.super rfl
  obtain ⟨w, hw, hwfits, hwsuits⟩ := comes_getAt h hmirrors ht hthis
  obtain ⟨o, rfl⟩ := hwsuits.this rfl
  rw [superMethod_of_entry (hdistance.trans hd) hv hw]
  cases hfind : c.method? method.text with
  | none => exact hbad.runtime _ _
  | some f => exact ⟨rfl, Class.Fits.method? hfits hfind, hwfits⟩

/-! ### Calls -/

theorem minds_callFunction (hread : WellRead [] (.stmts ss)) (hsub : sub.Minds ss bad)
    (h : m.Fits ss) {f : Function} (hf : f.Fits ss m) {args : List Value}
    (hargs : ∀ v ∈ args, v.Fits ss m) (harity : f.arity = args.length) (env : FrameId) :
    (callFunction sub f args m).Ends (fun v m₁ ↦ m.Comes ss env [] m₁ ∧ v.Fits ss m₁)
      fun cause _ ↦ bad cause := by
  obtain ⟨Δ, hsite, hmirrors, hinit⟩ := hf
  have hpushed := h.pushed (.call f.routine) f.closure m.arena.nextFrame
  have horigin :=
    (h.origins_pushed (.call f.routine) f.closure m.arena.nextFrame).trans (if_pos rfl)
  have hbody : ((push (.call f.routine) f.closure >>= fun frame ↦ releasing frame
      (defineParameters frame f.routine.parameters args >>= fun _ ↦
        executeAll sub frame f.routine.body)) m).Ends
      (fun flow m₁ ↦ m.Comes ss env [] m₁ ∧ flow.value.Fits ss m₁) fun cause _ ↦ bad cause := by
    have hempty := h.mirrors_pushed hmirrors ⟨.call f.routine, [], none⟩ rfl
    have hlive := hempty.live hpushed.fits.live_globals
    refine comes_within h (.call f.routine) f.closure env ?_
    refine ends_bind (comes_defineParameters hpushed.fits hlive f.routine.parameters
      (fun name hname ↦ ⟨fun _ ↦ ⟨_, horigin, ?_⟩, ?_⟩)
      (fun v hv ↦ (hargs v hv).grow hpushed.grows) harity) fun _ m₁ hcomes ↦ ?_
    · exact List.mem_append_left _ (List.mem_map_of_mem hname)
    · exact (hsite.wellRead hread).here.2 _ (List.mem_map_of_mem hname)
    have hstands : Stands ss m₁ m.arena.nextFrame (.call f.routine :: Δ)
        (.stmts f.routine.body) := by
      have hscope : Setting.completing (f.routine.parameters.map Name.text)
          (⟨.call f.routine, [], none⟩ :: Δ) = .call f.routine :: Δ := by
        simp [Setting.completing, OpenScope.call, Routine.parameterNames]
      refine ⟨hsite.part .body, ?_, ?_⟩
      · exact hscope ▸ hempty.completing hcomes.grows
      · exact hscope ▸ (h.exact_pushed _ _).completing hlive hcomes.grows
    refine (minds_executeAll hsub hcomes.fits _ hstands).weaken ?_
    rintro flow m₂ ⟨⟨names, hcomes'⟩, hflow⟩
    refine ⟨⟨_, hcomes.trans hcomes'⟩, ?_⟩
    cases flow with
    | normal => trivial
    | returned v => exact hflow.1
  rw [callFunction_eq]
  refine ends_bind hbody ?_
  rintro flow m₁ ⟨hcomes, hvalue⟩
  split
  next hisInit =>
    obtain ⟨s, outer, rfl, hthis⟩ := hinit hisInit
    obtain ⟨v, hv, hfits, -⟩ :=
      comes_getAt hcomes.fits (hmirrors.grow hcomes.grows) (d := 0) rfl hthis
    rw [hv]
    exact ⟨hcomes, hfits⟩
  next => exact ⟨hcomes, hvalue⟩

/-- A method is called in a frame around it that holds its receiver. -/
theorem minds_invoke (hread : WellRead [] (.stmts ss)) (hsub : sub.Minds ss bad)
    (h : m.Fits ss) {f : Function} (hf : f.FitsMethod ss m) {o : Object} (ho : o.Fits ss m)
    {args : List Value} (hargs : ∀ v ∈ args, v.Fits ss m) (harity : f.arity = args.length)
    (env : FrameId) :
    (invoke sub f o args m).Ends (fun v m₁ ↦ m.Comes ss env [] m₁ ∧ v.Fits ss m₁)
      fun cause _ ↦ bad cause := by
  obtain ⟨Δ, hsite, hmirrors⟩ := hf
  have hreceiver : (Value.object o).Suits "this" :=
    ⟨fun _ ↦ ⟨o, rfl⟩, fun hsuper ↦ absurd hsuper (by decide)⟩
  obtain ⟨hopened, hmirrors'⟩ := h.opened hmirrors (s := OpenScope.receiver f.routine) rfl
    (v := .object o) ho hreceiver (List.mem_singleton.2 rfl) env
  rw [invoke_eq, opening_apply ((h.frame?_push _ _).trans (if_pos rfl))]
  refine ends_releasing ((minds_callFunction hread hsub hopened.fits
    (f := { f with closure := m.arena.nextFrame }) ⟨_, hsite, hmirrors', fun _ ↦ ⟨_, _, rfl,
      List.mem_singleton.2 rfl⟩⟩ (fun v hv ↦ (hargs v hv).grow hopened.grows) harity env).weaken
    ?_)
  rintro v m₁ ⟨hcomes, hv⟩
  rw [hcomes.fits.release_eq]
  exact ⟨hopened.trans hcomes, hv⟩

theorem comes_openCaptured (h : m.Fits ss) (hmirrors : m.Mirrors k Δ) {s : OpenScope}
    (hs : s.complete = [x]) (hv : v.Fits ss m) (hsuits : v.Suits x) (hx : x ∈ s.origin.declares)
    (env : FrameId) :
    (openCaptured s.origin k x v m).Ends
      (fun frame m₁ ↦ m.Comes ss env [] m₁ ∧ m₁.Mirrors frame (s :: Δ))
      fun cause _ ↦ bad cause := by
  obtain ⟨hopened, hmirrors'⟩ := h.opened hmirrors hs hv hsuits hx env
  unfold openCaptured
  rw [opening_apply ((h.frame?_push _ _).trans (if_pos rfl))]
  have hcaptured := hopened.fits.capture m.arena.nextFrame env
  exact ⟨hopened.trans hcaptured, hmirrors'.grow hcaptured.grows⟩

theorem minds_toValue (h : m.Fits ss) {t : Target} (ht : t.Fits ss m) (env : FrameId) :
    (Target.toValue t m).Ends (fun v m₁ ↦ m.Comes ss env [] m₁ ∧ v.Fits ss m₁)
      fun cause _ ↦ bad cause := by
  cases t with
  | value v => exact ⟨h.comes env, ht⟩
  | method f o =>
    obtain ⟨⟨Δ, hsite, hmirrors⟩, ho⟩ := ht
    have hreceiver : (Value.object o).Suits "this" :=
      ⟨fun _ ↦ ⟨o, rfl⟩, fun hsuper ↦ absurd hsuper (by decide)⟩
    rw [toValue_method]
    refine ends_bind (comes_openCaptured h hmirrors (s := OpenScope.receiver f.routine) rfl
      (v := .object o) ho hreceiver (List.mem_singleton.2 rfl) env) ?_
    rintro frame m₁ ⟨hcomes, hframe⟩
    refine ends_bind (comes_fresh hcomes.fits env) fun id m₂ hcomes' ↦ ?_
    exact ⟨hcomes.trans hcomes', _, hsite, hframe.grow hcomes'.grows, fun _ ↦ ⟨_, _, rfl,
      List.mem_singleton.2 rfl⟩⟩

theorem minds_instantiate (hread : WellRead [] (.stmts ss)) (hsub : sub.Minds ss bad)
    (h : m.Fits ss) {c : Class} (hc : c.Fits ss m) {args : List Value}
    (hargs : ∀ v ∈ args, v.Fits ss m) (harity : c.arity = args.length) (env : FrameId) :
    (instantiate sub c args m).Ends (fun v m₁ ↦ m.Comes ss env [] m₁ ∧ v.Fits ss m₁)
      fun cause _ ↦ bad cause := by
  refine ends_bind (comes_newObject h hc env) ?_
  rintro o m₁ ⟨hcomes, ho⟩
  cases hfind : c.method? initializerName with
  | none => exact ⟨hcomes, ho⟩
  | some f =>
    have hinit : f.arity = args.length := by
      rw [← harity]
      unfold Class.arity
      rw [hfind]
    refine ends_bind (minds_invoke hread hsub hcomes.fits
      (Class.Fits.method? (hc.grow hcomes.grows) hfind) ho
      (fun v hv ↦ (hargs v hv).grow hcomes.grows) hinit env) ?_
    rintro _ m₂ ⟨hcomes', _⟩
    exact ⟨hcomes.trans hcomes', Class.Fits.grow ho hcomes'.grows⟩

theorem minds_callValue (hread : WellRead [] (.stmts ss)) (hbad : Tolerates bad)
    (hsub : sub.Minds ss bad) (h : m.Fits ss) (hv : v.Fits ss m) (line : Nat) {args : List Value}
    (hargs : ∀ v ∈ args, v.Fits ss m) (harity : v.arity? = some args.length) (env : FrameId) :
    (callValue sub v line args m).Ends (fun v m₁ ↦ m.Comes ss env [] m₁ ∧ v.Fits ss m₁)
      fun cause _ ↦ bad cause := by
  cases v with
  | native f =>
    rcases callValue_native sub f line args with heq | ⟨w, heq, hplain⟩ | ⟨cause, heq⟩
    · rw [heq]
      exact ends_bind (comes_now h env) fun time m₁ hcomes ↦ ⟨hcomes, trivial⟩
    · rw [heq]
      exact ⟨h.comes env, Value.fits_of_within hplain.within⟩
    · rw [heq]
      exact hbad.runtime _ _
  | function id f =>
    exact minds_callFunction hread hsub h hv hargs (Option.some.inj harity) env
  | class_ c => exact minds_instantiate hread hsub h hv hargs (Option.some.inj harity) env
  | _ => exact hbad.runtime _ _

theorem minds_checkArity (hbad : Tolerates bad) (line expected given : Nat) :
    (checkArity line expected given m).Ends (fun _ m₁ ↦ m₁ = m ∧ expected = given)
      fun cause _ ↦ bad cause := by
  unfold checkArity
  split
  next heq => exact ⟨rfl, heq⟩
  next => exact hbad.runtime _ _

theorem minds_callTarget (hread : WellRead [] (.stmts ss)) (hbad : Tolerates bad)
    (hsub : sub.Minds ss bad) (h : m.Fits ss) {t : Target} (ht : t.Fits ss m) (line : Nat)
    {args : List Value} (hargs : ∀ v ∈ args, v.Fits ss m) (env : FrameId) :
    (callTarget sub t line args m).Ends (fun v m₁ ↦ m.Comes ss env [] m₁ ∧ v.Fits ss m₁)
      fun cause _ ↦ bad cause := by
  cases t with
  | method f o =>
    refine ends_bind_still (minds_checkArity hbad line f.arity args.length) fun _ harity ↦ ?_
    exact minds_invoke hread hsub h ht.1 ht.2 hargs harity env
  | value v =>
    simp only [callTarget]
    cases harity? : v.arity? with
    | none => exact hbad.runtime _ _
    | some arity =>
      refine ends_bind_still (minds_checkArity hbad line arity args.length) fun _ harity ↦ ?_
      exact minds_callValue hread hbad hsub h ht line hargs (harity ▸ harity?) env

/-! ### Expressions -/

theorem minds_unary (ss : List Stmt) (hbad : Tolerates bad) (op : UnaryOp) (line : Nat)
    (v : Value) :
    (unary op line v m).Ends (fun w m₁ ↦ m₁ = m ∧ w.Fits ss m) fun cause _ ↦ bad cause := by
  cases op with
  | not => exact ⟨rfl, trivial⟩
  | negate =>
    cases v with
    | number n => exact ⟨rfl, trivial⟩
    | _ => exact hbad.runtime _ _

theorem minds_binary (ss : List Stmt) (hbad : Tolerates bad) (op : BinaryOp) (line : Nat)
    (v w : Value) :
    (binary op line v w m).Ends (fun w m₁ ↦ m₁ = m ∧ w.Fits ss m) fun cause _ ↦ bad cause := by
  rcases binary_plain op line v w with ⟨x, heq, hx⟩ | ⟨cause, heq⟩
  · rw [heq]
    exact ⟨rfl, Value.fits_of_within hx.within⟩
  · rw [heq]
    exact hbad.runtime _ _

theorem minds_evaluateAll (hsub : sub.Minds ss bad) (h : m.Fits ss) (es : List Expr)
    (hstands : ∀ e ∈ es, Stands ss m env Δ (.expr e)) :
    (evaluateAll sub env es m).Ends
      (fun vs m₁ ↦ m.Comes ss env [] m₁ ∧ ∀ v ∈ vs, v.Fits ss m₁) fun cause _ ↦ bad cause := by
  induction es generalizing m with
  | nil => exact ⟨h.comes env, fun _ hv ↦ nomatch hv⟩
  | cons e es ih =>
    refine ends_bind (hsub.evaluate h (hstands e (List.mem_cons_self ..))) ?_
    rintro v m₁ ⟨hcomes, hv⟩
    refine ends_bind (ih hcomes.fits fun e' he' ↦
      (hstands e' (List.mem_cons_of_mem _ he')).grow h.live_globals hcomes.grows) ?_
    rintro vs m₂ ⟨hcomes', hvs⟩
    refine ⟨hcomes.trans hcomes', fun w hw ↦ ?_⟩
    rcases List.mem_cons.1 hw with rfl | hw
    · exact hv.grow hcomes'.grows
    · exact hvs w hw

theorem minds_target (hread : WellRead [] (.stmts ss)) (hbad : Tolerates bad)
    (hsub : sub.Minds ss bad) (h : m.Fits ss) {callee : Expr}
    (hstands : Stands ss m env Δ (.expr callee)) :
    (target sub callee env m).Ends (fun t m₁ ↦ m.Comes ss env [] m₁ ∧ t.Fits ss m₁)
      fun cause _ ↦ bad cause := by
  have hother : ((sub.evaluate callee env >>= fun v ↦ Pure.pure (Target.value v)) m).Ends
      (fun t m₁ ↦ m.Comes ss env [] m₁ ∧ t.Fits ss m₁) fun cause _ ↦ bad cause :=
    ends_bind (hsub.evaluate h hstands) fun v m₁ hv ↦ hv
  cases callee with
  | get object name =>
    refine ends_bind (hsub.evaluate h (hstands.part .object)) ?_
    rintro v m₁ ⟨hcomes, hv⟩
    exact (minds_property hbad hcomes.fits hv name).still fun t ht ↦ ⟨hcomes, ht⟩
  | super id line method =>
    exact (minds_superMethod hread hbad h hstands.mirrors hstands.site).still
      fun t ht ↦ ⟨h.comes env, ht⟩
  | _ => exact hother

/-- An assignment may fail for a variable that is awaited where it stands. -/
theorem minds_evaluate (hread : WellRead [] (.stmts ss)) (hbad : Tolerates bad)
    (hsub : sub.Minds ss bad) (h : m.Fits ss) {e : Expr} (hstands : Stands ss m env Δ (.expr e))
    (hearly : ∀ id name value v m₁, e = .assign id name value → Δ.Awaiting name.text →
      sub.evaluate value env m = .done v m₁ →
      bad (.internal (.frame (.unassignable name.text 0 env)))) :
    (evaluate sub e env m).Ends (fun v m₁ ↦ m.Comes ss env [] m₁ ∧ v.Fits ss m₁)
      fun cause _ ↦ bad cause := by
  have hplaced := h.settled Δ _ hstands.site
  have hregular := (hstands.site.wellRead hread).here
  -- looking up a name leaves the machine as it is
  have hlookUp {id : NodeId} {x : String} (hpart : Part Δ (.expr e) Δ (.use id x))
      (hcalm : ¬Δ.Awaiting x) (line : Nat) : (lookUp id x line env m).Ends
        (fun v m₁ ↦ m.Comes ss env [] m₁ ∧ v.Fits ss m₁) fun cause _ ↦ bad cause :=
    (minds_lookUp hread hbad h hstands.mirrors (hstands.site.part hpart) hcalm line).still
      fun v hv ↦ ⟨h.comes env, hv.1⟩
  cases e with
  | literal value => exact ⟨h.comes env, by cases value <;> trivial⟩
  | grouping inner => exact hsub.evaluate h (hstands.part .grouping)
  | unary op line operand =>
    refine ends_bind (hsub.evaluate h (hstands.part .operand)) ?_
    rintro v m₁ ⟨hcomes, hv⟩
    exact (minds_unary ss hbad op line v).still fun w hw ↦ ⟨hcomes, hw⟩
  | binary op line left right =>
    refine ends_bind (hsub.evaluate h (hstands.part .binaryLeft)) ?_
    rintro v m₁ ⟨hcomes, hv⟩
    refine ends_bind (hsub.evaluate hcomes.fits
      ((hstands.part .binaryRight).grow h.live_globals hcomes.grows)) ?_
    rintro w m₂ ⟨hcomes', hw⟩
    exact (minds_binary ss hbad op line v w).still fun x hx ↦ ⟨hcomes.trans hcomes', hx⟩
  | logical op line left right =>
    refine ends_bind (hsub.evaluate h (hstands.part .logicalLeft)) ?_
    rintro v m₁ ⟨hcomes, hv⟩
    split
    · exact ⟨hcomes, hv⟩
    · refine (hsub.evaluate hcomes.fits
        ((hstands.part .logicalRight).grow h.live_globals hcomes.grows)).weaken ?_
      rintro w m₂ ⟨hcomes', hw⟩
      exact ⟨hcomes.trans hcomes', hw⟩
  | var id name =>
    refine hlookUp .var ?_ name.line
    rintro ⟨s, outer, hΔ, hawaited, _⟩
    exact hplaced.allowed s outer hΔ hawaited
  | assign id name value =>
    refine ends_bind_of_done (hsub.evaluate h (hstands.part .value)) ?_
    rintro v m₁ hdone ⟨hcomes, hv⟩
    refine ends_bind (minds_store hread hbad hcomes.fits (hstands.mirrors.grow hcomes.grows)
      (hstands.site.part .assigned) hregular hv fun hawaiting ↦
        hearly id name value v m₁ rfl hawaiting hdone) fun _ m₂ hcomes' ↦ ?_
    exact ⟨hcomes.trans hcomes', hv.grow hcomes'.grows⟩
  | call callee line args =>
    refine ends_bind (minds_target hread hbad hsub h (hstands.part .callee)) ?_
    rintro t m₁ ⟨hcomes, ht⟩
    refine ends_bind (minds_evaluateAll hsub hcomes.fits args fun e he ↦
      (hstands.part (.argument he)).grow h.live_globals hcomes.grows) ?_
    rintro vs m₂ ⟨hcomes', hvs⟩
    refine (minds_callTarget hread hbad hsub hcomes'.fits (ht.grow hcomes'.grows) line hvs
      env).weaken ?_
    rintro v m₃ ⟨hcomes'', hv⟩
    exact ⟨(hcomes.trans hcomes').trans hcomes'', hv⟩
  | get object name =>
    refine ends_bind (hsub.evaluate h (hstands.part .object)) ?_
    rintro v m₁ ⟨hcomes, hv⟩
    refine ends_bind_still (minds_property hbad hcomes.fits hv name) fun t ht ↦ ?_
    refine (minds_toValue hcomes.fits ht env).weaken ?_
    rintro w m₂ ⟨hcomes', hw⟩
    exact ⟨hcomes.trans hcomes', hw⟩
  | set object name value =>
    refine ends_bind (hsub.evaluate h (hstands.part .setObject)) ?_
    rintro v m₁ ⟨hcomes, hv⟩
    cases v with
    | object o =>
      refine ends_bind (hsub.evaluate hcomes.fits
        ((hstands.part .setValue).grow h.live_globals hcomes.grows)) ?_
      rintro w m₂ ⟨hcomes', hw⟩
      refine ends_bind (comes_setField hcomes'.fits o name.text hw env) fun _ m₃ hcomes'' ↦ ?_
      exact ⟨(hcomes.trans hcomes').trans hcomes'', hw.grow hcomes''.grows⟩
    | _ => exact hbad.runtime _ _
  | this id line =>
    exact hlookUp .this ((hstands.site.orderly hread).not_awaiting_keyword (fun _ hr ↦ nomatch hr)
      (List.mem_cons_self ..)) line
  | super id line method =>
    exact ends_bind_still (minds_superMethod hread hbad h hstands.mirrors hstands.site)
      fun t ht ↦ minds_toValue h ht env

/-! ### Declarations -/

/-- A function may be called once its name is there. -/
theorem minds_declareFunction (hread : WellRead [] (.stmts ss)) (h : m.Fits ss) {r : Routine}
    (hstands : Stands ss m env Δ (.stmt (.function r))) :
    (declareFunction r env m).Ends (fun _ m₁ ↦ m.Comes ss env [r.name.text] m₁)
      fun cause _ ↦ bad cause := by
  have hplain := (hstands.site.wellRead hread).declared_plain r.name.text (List.mem_singleton.2 rfl)
  refine ends_bind (comes_capture h env env) fun _ m₁ hcomes ↦ ?_
  refine ends_bind (comes_fresh hcomes.fits env) fun id m₂ hcomes' ↦ ?_
  have hcomes₂ := hcomes.trans hcomes'
  have hstands₂ := hstands.grow h.live_globals hcomes₂.grows
  refine (comes_define hcomes₂.fits (hstands₂.mirrors.live hcomes₂.fits.live_globals)
    (fun m₃ hgrows ↦ ?_) (Value.suits_of_plain hplain _)
    (hstands₂.mayHold hread (List.mem_singleton.2 rfl))).weaken
    fun _ m₃ hcomes₃ ↦ hcomes₂.trans hcomes₃
  exact ⟨_, hstands.site.part .function, hstands₂.mirrors.completing hgrows,
    fun hinit ↦ nomatch hinit⟩

theorem minds_superclassValue (hread : WellRead [] (.stmts ss)) (hbad : Tolerates bad)
    (h : m.Fits ss) {name : Name} {superclass : Option Superclass} {methods : List Routine}
    (hstands : Stands ss m env Δ (.stmt (.class_ name superclass methods))) :
    (superclassValue env superclass m).Ends
      (fun parent m₁ ↦ m₁ = m ∧ parent.isSome = superclass.isSome ∧
        ∀ c, parent = some c → c.Fits ss m) fun cause _ ↦ bad cause := by
  cases superclass with
  | none => exact ⟨rfl, rfl, fun _ hc ↦ nomatch hc⟩
  | some s =>
    refine ends_bind_still (minds_lookUp hread hbad h hstands.mirrors
      (hstands.site.part .superclass) ((hstands.site.orderly hread).not_awaiting id) s.name.line) ?_
    rintro v ⟨hv, -⟩
    cases v with
    | class_ c =>
      refine ⟨rfl, rfl, fun c' hc' ↦ ?_⟩
      cases hc'
      exact hv
    | _ => exact hbad.runtime _ _

/-- The frame of the methods is that of the scope which holds the extended class, if there is
one. -/
theorem minds_methodScope (h : m.Fits ss) (hmirrors : m.Mirrors env Δ) (name : Name)
    (methods : List Routine) {superclass : Option Superclass} {parent : Option Class}
    (hsame : parent.isSome = superclass.isSome) (hparent : ∀ c, parent = some c → c.Fits ss m) :
    (methodScope name methods env parent m).Ends
      (fun frame m₁ ↦ m.Comes ss env [] m₁ ∧
        m₁.Mirrors frame (OpenScope.extension name methods superclass ++ Δ))
      fun cause _ ↦ bad cause := by
  cases parent with
  | none =>
    obtain rfl : superclass = none := by simpa using hsame.symm
    refine ends_bind (comes_capture h env env) fun _ m₁ hcomes ↦ ?_
    exact ⟨hcomes, hmirrors.grow hcomes.grows⟩
  | some c =>
    obtain ⟨s, rfl⟩ := Option.isSome_iff_exists.1 hsame.symm
    have hsuits : (Value.class_ c).Suits "super" :=
      ⟨fun hthis ↦ absurd hthis (by decide), fun _ ↦ ⟨c, rfl⟩⟩
    exact comes_openCaptured h hmirrors
      (s := ⟨.extension name methods, ["super"], none⟩) rfl (v := .class_ c) (hparent c rfl) hsuits
      (List.mem_singleton.2 rfl) env

theorem minds_declareClass (hread : WellRead [] (.stmts ss)) (hbad : Tolerates bad)
    (h : m.Fits ss) {name : Name} {superclass : Option Superclass} {methods : List Routine}
    (hstands : Stands ss m env Δ (.stmt (.class_ name superclass methods))) :
    (declareClass name superclass methods env m).Ends
      (fun _ m₁ ↦ m.Comes ss env [name.text] m₁) fun cause _ ↦ bad cause := by
  have hplain := (hstands.site.wellRead hread).declared_plain name.text (List.mem_singleton.2 rfl)
  have hlive := hstands.mirrors.live h.live_globals
  rw [declareClass_eq]
  refine ends_bind_still (minds_superclassValue hread hbad h hstands) ?_
  rintro parent ⟨hsame, hparent⟩
  refine ends_bind (comes_define h hlive (fun _ _ ↦ trivial) (Value.suits_of_plain hplain .nil)
    (hstands.mayHold hread (List.mem_singleton.2 rfl))) fun _ m₂ hcomes ↦ ?_
  refine ends_bind (minds_methodScope hcomes.fits (hstands.mirrors.completing hcomes.grows) name
    methods hsame fun c hc ↦ (hparent c hc).grow hcomes.grows) ?_
  rintro frame m₃ ⟨hcomes', hframe⟩
  refine ends_bind (comes_fresh hcomes'.fits env) fun id m₄ hcomes'' ↦ ?_
  have hcomes₃ := hcomes.trans hcomes'
  have hcomes₄ := hcomes₃.trans hcomes''
  -- the name is there since it was given the value nil
  obtain ⟨f, hf⟩ := hlive
  obtain ⟨f', hf', -, hnames⟩ := hcomes₄.grows.frames env f hf
  have hname : f'.values.contains name.text = true :=
    (hnames name.text).2 (Or.inr ⟨rfl, List.mem_singleton.2 rfl⟩)
  have hclass : Class.Fits ss m₄ ⟨⟨id, name.text, methodTable methods frame⟩,
      (parent.map Class.layers).getD []⟩ := by
    intro layer hlayer
    rcases List.mem_cons.1 hlayer with rfl | hlayer
    · refine Bindings.all_ofList fun e he ↦ ?_
      obtain ⟨r, hr, rfl⟩ := List.mem_map.1 he
      exact ⟨_, hstands.site.part (.method hr), hframe.grow hcomes''.grows⟩
    · cases parent with
      | none => cases hlayer
      | some c => exact ((hparent c rfl).grow hcomes₄.grows) layer hlayer
  have hvalue : Value.Fits ss m₄ (.class_ _) := hclass
  exact (comes_assign hcomes₄.fits hf' hname name.line hvalue
    (Value.suits_of_plain hplain _)).weaken fun _ m₅ hcomes₅ ↦ hcomes₄.trans hcomes₅

/-! ### Statements -/

theorem minds_optional (hsub : sub.Minds ss bad) (h : m.Fits ss) {e? : Option Expr}
    (hstands : ∀ e, e? = some e → Stands ss m env Δ (.expr e)) :
    (optional sub env e? m).Ends (fun v m₁ ↦ m.Comes ss env [] m₁ ∧ v.Fits ss m₁)
      fun cause _ ↦ bad cause := by
  cases e? with
  | none => exact ⟨h.comes env, trivial⟩
  | some e => exact hsub.evaluate h (hstands e rfl)

theorem minds_execute (hread : WellRead [] (.stmts ss)) (hbad : Tolerates bad)
    (hsub : sub.Minds ss bad) (h : m.Fits ss) (fuel : Nat) {s : Stmt}
    (hstands : Stands ss m env Δ (.stmt s)) :
    (execute fuel sub s env m).Ends
      (fun flow m₁ ↦ m.Comes ss env s.declared m₁ ∧ flow.Fits ss m₁ Δ)
      fun cause _ ↦ bad cause := by
  have hplaced := h.settled Δ _ hstands.site
  have hregular := (hstands.site.wellRead hread).here
  -- a statement that is a branch declares nothing
  have hbranch {m₁ : Machine} (hcomes : m.Comes ss env [] m₁) {t : Stmt}
      (hpart : Part Δ (.stmt s) Δ (.stmt t)) (hnone : t.declared = []) :
      (sub.execute t env m₁).Ends (fun flow m₂ ↦ m.Comes ss env [] m₂ ∧ flow.Fits ss m₂ Δ)
        fun cause _ ↦ bad cause := by
    refine (hsub.execute hcomes.fits
      ((hstands.part hpart).grow h.live_globals hcomes.grows)).weaken ?_
    rintro flow m₂ ⟨hcomes', hflow⟩
    rw [hnone] at hcomes'
    exact ⟨hcomes.trans hcomes', hflow⟩
  cases s with
  | expression value =>
    refine ends_bind (hsub.evaluate h (hstands.part .expression)) ?_
    rintro v m₁ ⟨hcomes, _⟩
    exact ⟨hcomes, trivial⟩
  | print value =>
    refine ends_bind (hsub.evaluate h (hstands.part .print)) ?_
    rintro v m₁ ⟨hcomes, _⟩
    refine ends_bind (comes_write hcomes.fits hbad _ env) fun _ m₂ hcomes' ↦ ?_
    exact ⟨hcomes.trans hcomes', trivial⟩
  | var name initial =>
    have hinitial : ∀ e, initial = some e →
        Stands ss m env (Δ.awaiting name.text) (.expr e) := by
      rintro e rfl
      exact hstands.initial
    refine ends_bind (minds_optional hsub h hinitial) ?_
    rintro v m₁ ⟨hcomes, hv⟩
    have hstands₁ := hstands.grow h.live_globals hcomes.grows
    refine ends_bind (comes_define hcomes.fits (hstands₁.mirrors.live hcomes.fits.live_globals)
      (fun _ hgrows ↦ hv.grow hgrows) (Value.suits_of_plain hregular v)
      (hstands₁.mayHold hread (List.mem_singleton.2 rfl))) fun _ m₂ hcomes' ↦ ?_
    exact ⟨hcomes.trans hcomes', trivial⟩
  | block body =>
    have hpushed := h.pushed (.block body) env m.arena.nextFrame
    have hbody : Stands ss (m.pushed (.block body) env) m.arena.nextFrame (.block body :: Δ)
        (.stmts body) :=
      ⟨hstands.site.part .block, h.mirrors_pushed hstands.mirrors (.block body) rfl,
        h.exact_pushed _ _⟩
    refine comes_within h (.block body) env env
      ((minds_executeAll hsub hpushed.fits body hbody).weaken ?_)
    rintro flow m₁ ⟨hcomes, hflow⟩
    refine ⟨hcomes, ?_⟩
    cases flow with
    | normal => trivial
    | returned v =>
      obtain ⟨hv, s, hs, r, hr⟩ := hflow
      refine ⟨hv, s, (List.mem_cons.1 hs).resolve_left ?_, r, hr⟩
      rintro rfl
      cases hr
  | ifThen test consequent =>
    refine ends_bind (hsub.evaluate h (hstands.part .ifTest)) ?_
    rintro v m₁ ⟨hcomes, _⟩
    split
    · exact hbranch hcomes .ifConsequent hregular
    · exact ⟨hcomes, trivial⟩
  | ifElse test consequent alternative =>
    refine ends_bind (hsub.evaluate h (hstands.part .elseTest)) ?_
    rintro v m₁ ⟨hcomes, _⟩
    split
    · exact hbranch hcomes .elseConsequent hregular.1
    · exact hbranch hcomes .elseAlternative hregular.2
  | loop test body =>
    have hround (m₁ : Machine) (hcomes : m.Comes ss env [] m₁) :
        (sub.evaluate test env m₁).Ends (fun _ m₂ ↦ m.Comes ss env [] m₂)
          fun cause _ ↦ bad cause :=
      (hsub.evaluate hcomes.fits
        ((hstands.part .loopTest).grow h.live_globals hcomes.grows)).weaken
        fun v m₂ h ↦ hcomes.trans h.1
    refine ends_rounds hround (fun v m₁ hcomes _ ↦ ?_)
      (fun v m₁ hcomes _ ↦ ⟨hcomes, trivial⟩) fuel m (h.comes env)
    refine (hbranch hcomes .loopBody hregular).weaken fun flow m₂ hflow ↦ ?_
    cases flow with
    | normal => exact hflow.1
    | returned w => exact hflow
  | function r =>
    refine ends_bind (minds_declareFunction hread h hstands) fun _ m₁ hcomes ↦ ?_
    exact ⟨hcomes, trivial⟩
  | return_ line value =>
    have hreturned : ∀ e, value = some e → Stands ss m env Δ (.expr e) := by
      rintro e rfl
      exact hstands.part .returned
    refine ends_bind (minds_optional hsub h hreturned) ?_
    rintro v m₁ ⟨hcomes, hv⟩
    exact ⟨hcomes, hv, hplaced.allowed⟩
  | class_ name superclass methods =>
    refine ends_bind (minds_declareClass hread hbad h hstands) fun _ m₁ hcomes ↦ ?_
    exact ⟨hcomes, trivial⟩

end Evaluation

end Lox
