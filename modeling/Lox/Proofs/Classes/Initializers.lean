import Lox.Proofs.Classes.Inheritance

/-!
Initializers answer their objects. At every moment of the run of an accepted program at which a
call succeeds: a class has made an object of its own that no value was before, and its initializer
has answered this object; a method with the name of initializers has answered the object that it is
for, be it called at once, of the object or of `super`, or kept as a value before
(`Program.always_initializes`). Each of these bodies runs with every parameter bound to its
argument.
-/

set_option autoImplicit false

namespace Lox

open Machine Evaluation

variable {moments : Guard} {D : Distances} {ss : List Stmt} {m m₁ m₂ m₃ : Machine} {env : FrameId}
  {callee : Expr} {line fuel : Nat} {args : List Expr} {vs : List Value} {t : Target} {v : Value}

/-! ### What calls answer -/

/-- The value is in some frame or field. -/
def Machine.Stores (m : Machine) (v : Value) : Prop :=
  (∃ k x, m.arena.valueIn? k x = some v) ∨ ∃ table ∈ m.fields, ∃ x, table.find? x = some v

/-- The object has no fields yet, and no value in a frame or a field, before the arguments were
worked out or after, nor an argument itself, is the object. -/
structure Object.New (before m : Machine) (vs : List Value) (o : Object) : Prop where
  fieldless : m.fields[o.id]? = none
  apart : ∀ o' : Object, before.Stores (.object o') ∨ m.Stores (.object o') ∨ .object o' ∈ vs →
    o'.id ≠ o.id

/-- The machine after an object has been made. -/
def Machine.allocated (m : Machine) : Machine := { m with fields := m.fields.push .empty }

/-- What a call that has succeeded has answered, of what it calls and the arguments on a machine:
a class a new object of that class, which its initializer has answered too, and a method with the
name of initializers its object. -/
def Target.Yields (moments : Guard) (sub : Evaluator) (before m : Machine) (vs : List Value)
    (v : Value) : Target → Prop
  | .value (.class_ c) => ∃ o, v = .object o ∧ o.class_ = c ∧ o.New before m vs ∧
      ∀ f, c.method? initializerName = some f → InvokesWith sub f o vs m.allocated ∧
        ∃ m₁, invoke sub f o vs m.allocated = .done (.object o) m₁
  | .value (.function id f) => f.routine.name.text = initializerName →
      m.origins[f.closure.slot]? = some (.receiver f.routine) →
      ∃ o, Function.BoundAt moments id f o ∧ m.arena.valueIn? f.closure "this" = some (.object o) ∧
        v = .object o ∧ RunsWith sub f vs m
  | .value _ => True
  | .method f o => f.routine.name.text = initializerName → v = .object o ∧ InvokesWith sub f o vs m

/-- At this moment a call that succeeds does so as objects and initializers have it. -/
def Initializes (moments : Guard) (n : Node) (env : FrameId) (m : Machine) : Prop :=
  ∀ callee line args, n = .expr (.call callee line args) → ∀ fuel v m₃,
    evaluate (evaluator fuel) (.call callee line args) env m = .done v m₃ →
    ∃ t m₁ vs m₂, target (evaluator fuel) callee env m = .done t m₁ ∧
      evaluateAll (evaluator fuel) env args m₁ = .done vs m₂ ∧
      callTarget (evaluator fuel) t line vs m₂ = .done v m₃ ∧
      t.Yields moments (evaluator fuel) m m₂ vs v

/-- What succeeds in two steps has succeeded in the first. -/
theorem Action.exists_of_bind_done {α β : Type} {x : Action α} {f : α → Action β} {b : β}
    (h : (x >>= f) m = .done b m₂) : ∃ a m₁, x m = .done a m₁ ∧ f a m₁ = .done b m₂ := by
  rw [bind_apply] at h
  cases hx : x m with
  | done a m₁ => exact ⟨a, m₁, rfl, by simpa only [hx] using h⟩
  | _ => simp [hx] at h

theorem Machine.Accounted.id_lt (h : m.Accounted moments D) {o : Object}
    (ho : m.Stores (.object o)) : o.id < m.fields.size := by
  have hvalue : (Value.object o).Accounted moments m := by
    rcases ho with ⟨k, x, hv⟩ | ⟨table, htable, x, hv⟩
    · exact h.value hv
    · exact h.fields table htable x _ hv
  exact Object.Accounted.exists_ hvalue

theorem Machine.Accounted.new (h : m.Accounted moments D) (h₁ : m₁.Accounted moments D)
    (hobjects : m.fields.size ≤ m₁.fields.size) (hvs : ∀ v ∈ vs, v.Accounted moments m₁)
    (c : Class) : Object.New m m₁ vs ⟨m₁.fields.size, c⟩ where
  fieldless := Array.getElem?_eq_none (Nat.le_refl _)
  apart o ho := by
    refine Nat.ne_of_lt ?_
    rcases ho with ho | ho | ho
    · exact Nat.lt_of_lt_of_le (h.id_lt ho) hobjects
    · exact h₁.id_lt ho
    · exact Object.Accounted.exists_ (hvs _ ho)

/-- Arguments that are taken are as many as the parameters. -/
theorem eq_of_checkArity {line expected given : Nat}
    (h : checkArity line expected given m = .done () m₁) : expected = given ∧ m₁ = m := by
  unfold checkArity at h
  split at h
  next heq =>
    cases h
    exact ⟨heq, rfl⟩
  next => cases h

namespace Guard.OfRuns

/-- An object that is made, set up by its initializer. -/
theorem instantiated (h : moments.OfRuns ss D) (hm : m.Accounted moments D) {c : Class}
    (hc : c.Accounted moments m) (hvs : ∀ v ∈ vs, v.Accounted moments m)
    (hmoments : Throughout (fun sub ↦ instantiate sub c vs) fuel m moments)
    (hdone : instantiate (evaluator fuel) c vs m = .done v m₁) (hcount : c.arity = vs.length)
    {f : Function} (hf : c.method? initializerName = some f) :
    InvokesWith (evaluator fuel) f ⟨m.fields.size, c⟩ vs m.allocated ∧
      ∃ m₁, invoke (evaluator fuel) f ⟨m.fields.size, c⟩ vs m.allocated =
        .done (.object ⟨m.fields.size, c⟩) m₁ := by
  obtain ⟨hallocated, -, ho⟩ := Action.accounts_newObject hm hc
  have heq (sub : Evaluator) : instantiate sub c vs m =
      (invoke sub f ⟨m.fields.size, c⟩ vs >>= fun _ ↦ pure (Value.object ⟨m.fields.size, c⟩))
        m.allocated := by
    change (Action.newObject c >>= _) m = _
    rw [Action.bind_apply]
    simp only [Action.newObject, hf]
    rfl
  have huse : Uniform fun sub ↦ invoke sub f ⟨m.fields.size, c⟩ vs :=
    fun hsubs ↦ Alignment.invoke hsubs f ⟨m.fields.size, c⟩ vs
  have hrest : Throughout (fun sub ↦ invoke sub f ⟨m.fields.size, c⟩ vs >>= fun _ ↦
      pure (Value.object ⟨m.fields.size, c⟩)) fuel m.allocated moments := fun alarm ↦
    (heq _).symm.trans ((hmoments alarm).trans (heq _))
  have hmethod : f.MethodOf moments m.allocated ⟨m.fields.size, c⟩ :=
    ho.class_.method? (List.suffix_refl _) hf
  have hinit : f.isInitializer = true :=
    hmethod.isInitializer.trans (decide_eq_true (hc.text_of_method? hf))
  have harity : f.routine.parameters.length = vs.length := by
    simpa only [Class.arity, hf, Function.arity] using hcount
  refine ⟨invokesWith hallocated.accounted.filed _ _ harity, ?_⟩
  obtain ⟨w, m₂, hw, -⟩ := Action.exists_of_bind_done ((heq _).symm.trans hdone)
  have hanswer := ((hrest.first huse).accounts h.toSited huse fun sub hsub ↦
    accounts_invoke hsub hallocated.accounted hmethod ho fun v hv ↦
      (hvs v hv).keep hallocated.keeps).1.of_done hw
  exact ⟨m₂, hanswer.2.2 hinit ▸ hw⟩

/-- A call that succeeds, of what is accounted for. -/
theorem yields (h : moments.OfRuns ss D) {before : Machine} (hbefore : before.Accounted moments D)
    (hm : m.Accounted moments D) (hobjects : before.fields.size ≤ m.fields.size)
    (ht : t.Accounted moments m) (hvs : ∀ v ∈ vs, v.Accounted moments m)
    (hmoments : Throughout (fun sub ↦ callTarget sub t line vs) fuel m moments)
    (hdone : callTarget (evaluator fuel) t line vs m = .done v m₁) :
    t.Yields moments (evaluator fuel) before m vs v := by
  obtain ⟨-, -, hanswers⟩ := (hmoments.accounts h.toSited
    (fun hsubs ↦ Alignment.callTarget hsubs t line vs) fun sub hsub ↦
      accounts_callTarget hsub hm ht line hvs).1.of_done hdone
  cases t with
  | method f o =>
    intro hname
    obtain ⟨_, _, harity, -⟩ := Action.exists_of_bind_done hdone
    exact ⟨hanswers (ht.1.isInitializer.trans (decide_eq_true hname)),
      invokesWith hm.filed _ o (eq_of_checkArity harity).1⟩
  | value w =>
    cases w with
    | class_ c =>
      obtain ⟨_, m₀, harity, hinstantiate⟩ := Action.exists_of_bind_done hdone
      obtain ⟨hcount, rfl⟩ := eq_of_checkArity harity
      have hcalls : Throughout (fun sub ↦ checkArity line c.arity vs.length >>= fun _ ↦
          instantiate sub c vs) fuel m₀ moments := hmoments
      have hinstantiates : Throughout (fun sub ↦ instantiate sub c vs) fuel m₀ moments :=
        hcalls.rest (fun _ ↦ Alignment.actions_same _) harity
      exact ⟨⟨m₀.fields.size, c⟩, hanswers, rfl, hbefore.new hm hobjects hvs c, fun f hf ↦
        h.instantiated hm ht hvs hinstantiates hinstantiate hcount hf⟩
    | function id f =>
      intro hname horigin
      obtain ⟨_, _, harity, -⟩ := Action.exists_of_bind_done hdone
      rcases ht with hdeclared | hbound
      · exact absurd horigin (hdeclared.origin _)
      · obtain ⟨o, hthis, hbinds⟩ := hbound.receiver
        exact ⟨o, hbinds, hthis,
          hanswers (hbound.isInitializer.trans (decide_eq_true hname)) _ hthis,
          runsWith hm.filed _ (eq_of_checkArity harity).1⟩
    | _ => trivial

theorem initializes (h : moments.OfRuns ss D) {n : Node} (hmoment : moments n env m) :
    Initializes moments n env m := by
  rintro callee line args rfl fuel v m₃ hdone
  obtain ⟨t, m₁, htarget, hrest⟩ := Action.exists_of_bind_done hdone
  obtain ⟨vs, m₂, hargs, hanswer⟩ := Action.exists_of_bind_done hrest
  obtain ⟨hm₁, hm₂, ht, hvs, hmoments⟩ := h.call hmoment htarget hargs
  exact ⟨t, m₁, vs, m₂, htarget, hargs, hanswer, h.yields (h.accounted _ _ _ hmoment) hm₂.accounted
    (Nat.le_trans hm₁.objects hm₂.objects) ht hvs hmoments hanswer⟩

end Guard.OfRuns

section

variable {source : String} {p : Program}

/-- At every moment of the run of an accepted program calls succeed as initializers have it. -/
theorem Program.always_initializes (h : Program.ofSource source = .ok p) (fuel : Nat) (sink : Sink)
    (clock : Clock) :
    p.Always fuel (.initial sink clock) (Initializes (p.Moment (.initial sink clock))) :=
  (Program.always_moment p (.initial sink clock) fuel).imp fun _ _ _ hmoment ↦
    (Program.ofRuns h sink clock).initializes hmoment

/-- An initializer that is inherited, called of `super`, called again and kept as a value. -/
theorem Program.initializes_everywhere : ∃ p, Program.ofSource
    "class A { init(n) { this.n = n; if (n > 0) { this.init(n - 1); return; } } }
    class B < A { init(n) { super.init(n); } }
    class C < B { }
    var c = C(2); var f = c.init; print f(1) == c; print c.init(3) == c;" = .ok p ∧
      p.Always 100 (.initial .unlimited .stopped)
        (Initializes (p.Moment (.initial .unlimited .stopped))) := by
  refine (exists_of_isOk ?_).imp fun p hp ↦ ⟨hp, always_initializes hp 100 .unlimited .stopped⟩
  decide +kernel

end

end Lox
