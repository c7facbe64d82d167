import Lox.Proofs.Classes.Running

/-!
Methods are bound as the declarations of classes have it, at every moment of the run of an accepted
program (`Program.always_inherits`). A method that some execution of a declaration has put into its
class is bound to objects of that class and of those that descend from it. The methods of `super`
are those of the class that was extended by the execution that has made the method at hand, for the
object at hand, whatever class this object is of and whatever the names of the classes have come to
stand for since.
-/

set_option autoImplicit false

namespace Lox

open Machine Evaluation

variable {moments : Guard} {D : Distances} {ss : List Stmt} {m m₁ m₂ : Machine} {env : FrameId}
  {e callee : Expr} {line fuel : Nat} {args : List Expr} {vs : List Value} {t : Target}

/-! ### Moments of runs -/

/-- Moments of the runs of a program, where machines account for what they have, and from where
nothing leads to other moments. -/
structure Guard.OfRuns (ss : List Stmt) (D : Distances) (moments : Guard) : Prop
    extends Guard.Sited ss D moments where
  accounted : ∀ n env m, moments n env m → m.Accounted moments D
  throughout : ∀ e env m, moments (.expr e) env m → ∀ fuel,
    Throughout (fun sub ↦ Evaluation.evaluate sub e env) fuel m moments

namespace Guard.OfRuns

/-- What the expression looks up is accounted for. -/
theorem target (h : moments.OfRuns ss D) (hmoment : moments (.expr e) env m)
    (hsite : ∀ Δ, Site ss Δ (.expr e) → Site ss Δ (.expr callee))
    (hmoments : Throughout (fun sub ↦ Evaluation.target sub callee env) fuel m moments) :
    (Evaluation.target (evaluator fuel) callee env m).Accounts moments D m
      fun t m₁ ↦ t.Accounted moments m₁ := by
  obtain ⟨Δ, hn⟩ := h.mirrored _ _ _ hmoment
  exact (hmoments.accounts h.toSited (fun hsubs ↦ Alignment.target hsubs callee env)
    fun sub hsub ↦ accounts_target h.toSited hsub (h.accounted _ _ _ hmoment) hn
      (hsite Δ hn.site)).1

theorem called (h : moments.OfRuns ss D) (hmoment : moments (.expr (.call callee line args)) env m)
    (fuel : Nat) :
    (Evaluation.target (evaluator fuel) callee env m).Accounts moments D m
      fun t m₁ ↦ t.Accounted moments m₁ :=
  h.target hmoment (fun _ hsite ↦ hsite.part .callee)
    ((h.throughout _ _ _ hmoment fuel).first fun hsubs ↦ Alignment.target hsubs callee env)

/-- A property that is read, of an object or of `super`. -/
theorem read (h : moments.OfRuns ss D) (hmoment : moments (.expr e) env m) {f : Function}
    {o : Object} (hdone : Evaluation.target (evaluator fuel) e env m = .done (.method f o) m₁) :
    (Target.method f o).Accounted moments m₁ := by
  have hwhole := h.throughout _ _ _ hmoment fuel
  have huse : Uniform fun sub ↦ Evaluation.target sub e env :=
    fun hsubs ↦ Alignment.target hsubs e env
  have hother {e : Expr} (hdone : ((evaluator fuel).evaluate e env >>= fun v ↦
      Pure.pure (Target.value v)) m = .done (.method f o) m₁) : False := by
    rw [Action.bind_apply] at hdone
    cases he : (evaluator fuel).evaluate e env m <;> simp [he] at hdone
    cases hdone
  have hfirst : Throughout (fun sub ↦ Evaluation.target sub e env) fuel m moments := by
    cases e with
    | get object name =>
      have heq (sub : Evaluator) : evaluate sub (.get object name) env =
          Evaluation.target sub (.get object name) env >>= Target.toValue := by
        simp only [evaluate, Evaluation.target, bind_assoc]
      simp only [heq] at hwhole
      exact hwhole.first huse
    | super id line method => exact hwhole.first huse
    | _ => exact (hother hdone).elim
  exact ((h.target hmoment (fun _ hsite ↦ hsite) hfirst).of_done hdone).2

/-- How a call comes to what it calls, and to its arguments. -/
theorem call (h : moments.OfRuns ss D) (hmoment : moments (.expr (.call callee line args)) env m)
    (htarget : Evaluation.target (evaluator fuel) callee env m = .done t m₁)
    (hargs : evaluateAll (evaluator fuel) env args m₁ = .done vs m₂) :
    m.Proceeds moments D m₁ ∧ m₁.Proceeds moments D m₂ ∧ t.Accounted moments m₂ ∧
      (∀ v ∈ vs, v.Accounted moments m₂) ∧
      Throughout (fun sub ↦ callTarget sub t line vs) fuel m₂ moments := by
  obtain ⟨hm₁, ht⟩ := (h.called hmoment fuel).of_done htarget
  have hrest : Throughout (fun sub ↦ evaluateAll sub env args >>= fun vs ↦
      callTarget sub t line vs) fuel m₁ moments := (h.throughout _ _ _ hmoment fuel).rest
    (fun hsubs ↦ Alignment.target hsubs callee env) htarget
  have huse : Uniform fun sub ↦ evaluateAll sub env args :=
    fun hsubs ↦ Alignment.evaluateAll hsubs env args
  obtain ⟨hm₂, hvs⟩ := ((hrest.first huse).accounts h.toSited huse fun sub hsub ↦
    accounts_evaluateAll hsub hm₁.accounted env args).1.of_done hargs
  exact ⟨hm₁, hm₂, ht.keep hm₂.keeps, hvs, hrest.rest huse hargs⟩

end Guard.OfRuns

/-! ### Methods and their objects -/

/-- The expression comes to bind a method to an object: to make it a value, to call it, or to set up
the object, which is new. -/
inductive Expr.Binds (env : FrameId) (m : Machine) : Expr → Function → Object → Prop
  | read {e : Expr} {fuel : Nat} {f : Function} {o : Object} {m₁ : Machine}
    (found : target (evaluator fuel) e env m = .done (.method f o) m₁) : Binds env m e f o
  | called {callee : Expr} {line fuel : Nat} {args : List Expr} {f : Function} {o : Object}
    {m₁ : Machine} (found : target (evaluator fuel) callee env m = .done (.method f o) m₁) :
    Binds env m (.call callee line args) f o
  | made {callee : Expr} {line fuel : Nat} {args : List Expr} {c : Class} {f : Function}
    {vs : List Value} {m₁ m₂ : Machine}
    (found : target (evaluator fuel) callee env m = .done (.value (.class_ c)) m₁)
    (given : evaluateAll (evaluator fuel) env args m₁ = .done vs m₂)
    (initializer : c.method? initializerName = some f) :
    Binds env m (.call callee line args) f ⟨m₂.fields.size, c⟩

/-- A moment at which methods are as the declarations of classes have it: every frame for a receiver
holds one that has the method, every method that is bound is one of the object, and each use of
`super` is for the class that was extended and the object at hand. And what a declaration of a class
makes is what its name stands for then. -/
structure Inherits (moments : Guard) (n : Node) (env : FrameId) (m : Machine) : Prop where
  receivers : ∀ k f r, m.arena.frame? k = some f → m.origins[k.slot]? = some (.receiver r) →
    ∃ (d : Declaring) (g : Function) (o : Object), d.Occurs moments ∧ d.Provides g o ∧
      g.routine = r ∧ f.enclosing = some g.closure ∧ f.values.find? "this" = some (.object o)
  binds : ∀ e f o, n = .expr e → e.Binds env m f o →
    ∃ d : Declaring, d.Occurs moments ∧ d.Provides f o
  super : ∀ id line method, n.UsesSuper id line method →
    ∃ c o, m.UsesSuper moments env (.super id line method) c o ∧ ∀ sub,
      (evaluate sub (.super id line method) env m = match c.method? method.text with
        | some f => Target.toValue (.method f o) m
        | none => .failed (.runtime method.line (.undefinedProperty method.text)) m) ∧
      ∀ line' args, evaluate sub (.call (.super id line method) line' args) env m =
        match c.method? method.text with
        | some f => (evaluateAll sub env args >>= callTarget sub (.method f o) line') m
        | none => .failed (.runtime method.line (.undefinedProperty method.text)) m
  classes : ∀ d : Declaring, d.Occurs moments → d.node = n → d.env = env → d.machine = m →
    ∀ fuel sub, ∃ m₁, execute fuel sub (.class_ d.name d.superclass d.methods) env m =
      .done .normal m₁ ∧ m₁.arena.valueIn? env d.name.text = some (.class_ d.class_)

namespace Guard.OfRuns

/-- A method that is bound has been provided by a declaration. -/
theorem binds (h : moments.OfRuns ss D) (hmoment : moments (.expr e) env m) {f : Function}
    {o : Object} (hbinds : e.Binds env m f o) :
    ∃ d : Declaring, d.Occurs moments ∧ d.Provides f o := by
  have hprovided {m₁ : Machine} (hmethod : f.MethodOf moments m₁ o) :
      ∃ d : Declaring, d.Occurs moments ∧ d.Provides f o :=
    hmethod.imp fun _ hd ↦ ⟨hd.1, hd.2.2⟩
  cases hbinds with
  | read found => exact hprovided (h.read hmoment found).1
  | called found => exact hprovided ((h.called hmoment _).of_done found).2.1
  | made found given initializer =>
    obtain ⟨-, -, hclass, -⟩ := h.call hmoment found given
    exact hprovided (Class.Accounted.method? (o := ⟨_, _⟩) hclass (List.suffix_refl _) initializer)

theorem super (h : moments.OfRuns ss D) {n : Node} (hmoment : moments n env m) {id : NodeId}
    {line : Nat} {method : Name} (huses : n.UsesSuper id line method) :
    ∃ c o, m.UsesSuper moments env (.super id line method) c o ∧
      superMethod id method env m = match c.method? method.text with
        | some f => .done (.method f o) m
        | none => .failed (.runtime method.line (.undefinedProperty method.text)) m := by
  obtain ⟨Δ, hn⟩ := h.mirrored _ _ _ hmoment
  obtain ⟨c, o, huse, -, heq⟩ :=
    superMethod_eq h.toSited (h.accounted _ _ _ hmoment) hn (huses.site hn.site)
  exact ⟨c, o, huse, heq⟩

/-- A declaration that can extend its superclass makes its class. -/
theorem classes (h : moments.OfRuns ss D) {d : Declaring} (hoccurs : d.Occurs moments) (fuel : Nat)
    (sub : Evaluator) :
    ∃ m₁, execute fuel sub (.class_ d.name d.superclass d.methods) d.env d.machine =
      .done .normal m₁ ∧ m₁.arena.valueIn? d.env d.name.text = some (.class_ d.class_) := by
  have haccounted := h.accounted _ _ _ hoccurs.moment
  obtain ⟨Δ, hn⟩ := h.mirrored _ _ _ hoccurs.moment
  obtain ⟨m₁, hdone, -, hvalue⟩ := declareClass_made h.toSited haccounted hoccurs hn
  refine ⟨m₁, ?_, hvalue⟩
  change (declareClass d.name d.superclass d.methods d.env >>= fun _ ↦ pure Flow.normal)
    d.machine = _
  rw [Action.bind_apply, hdone]
  rfl

theorem inherits (h : moments.OfRuns ss D) {n : Node} (hmoment : moments n env m) :
    Inherits moments n env m where
  receivers k f r hf hr := by
    obtain ⟨g, o, hroutine, ⟨d, hoccurs, -, hprovides⟩, henclosing, hthis⟩ :=
      ((h.accounted _ _ _ hmoment).frames k f hf).receiver r hr
    exact ⟨d, g, o, hoccurs, hprovides, hroutine, henclosing, hthis⟩
  binds e f o hn hbinds := h.binds (hn ▸ hmoment) hbinds
  super id line method huses := by
    obtain ⟨c, o, huse, heq⟩ := h.super hmoment huses
    refine ⟨c, o, huse, fun sub ↦ ⟨?_, fun line' args ↦ ?_⟩⟩
    · change (superMethod id method env >>= Target.toValue) m = _
      rw [Action.bind_apply, heq]
      cases c.method? method.text <;> rfl
    · change (superMethod id method env >>= fun t ↦ evaluateAll sub env args >>= fun vs ↦
        callTarget sub t line' vs) m = _
      rw [Action.bind_apply, heq]
      cases c.method? method.text <;> rfl
  classes d hoccurs hn henv hm fuel sub := by
    subst henv hm
    exact h.classes hoccurs fuel sub

end Guard.OfRuns

section

variable {source : String} {p : Program}

theorem Program.ofRuns (h : Program.ofSource source = .ok p) (sink : Sink) (clock : Clock) :
    (p.Moment (.initial sink clock)).OfRuns p.statements p.table where
  toSited := Program.sited h sink clock
  accounted _ _ _ hmoment := hmoment.accounted h
  throughout _ _ _ hmoment := hmoment.throughout

/-- Methods and `super` are as the declarations of classes have it, at every moment of the run of an
accepted program. -/
theorem Program.always_inherits (h : Program.ofSource source = .ok p) (fuel : Nat) (sink : Sink)
    (clock : Clock) :
    p.Always fuel (.initial sink clock) (Inherits (p.Moment (.initial sink clock))) :=
  (Program.always_moment p (.initial sink clock) fuel).imp fun _ _ _ hmoment ↦
    (Program.ofRuns h sink clock).inherits hmoment

/-- A method of `super` that is called from a function that has left its method, after the names of
the classes have been given other values. -/
theorem Program.inherits_escaped : ∃ p, Program.ofSource
    "class A { m() { return 1; } }
    class B < A { m() { return 2; } f() { fun g() { return super.m(); } return g; } }
    class C < B { m() { return 3; } }
    var g = C().f(); A = nil; B = C; print g();" = .ok p ∧
      p.Always 100 (.initial .unlimited .stopped)
        (Inherits (p.Moment (.initial .unlimited .stopped))) := by
  refine (exists_of_isOk ?_).imp fun p hp ↦ ⟨hp, always_inherits hp 100 .unlimited .stopped⟩
  decide +kernel

end

end Lox
