import Lox.Proofs.Reclamation.Settling
import Lox.Proofs.Run.Throughout
import Lox.Proofs.Scope.Mirroring

/-!
Where the classes of a running program come from. A class is what some execution of a declaration
has made: its methods, closed over a frame of their own if there is a class that is extended, and
the layers of that class below. All that is said of a class, a method or a bound method goes back
to such an execution, which is one of the moments of the run; and it goes on being so, since the
frames that it rests on are captured and what they hold for `this` and `super` is never changed
(`Machine.Keeps`).
-/

set_option autoImplicit false

namespace Lox

/-! ### Executions of class declarations -/

/-- An execution of a class declaration: where and when it is, and the class it then extends. -/
structure Declaring where
  name : Name
  superclass : Option Superclass
  methods : List Routine
  env : FrameId
  machine : Machine
  parent : Option Class

namespace Declaring

def node (d : Declaring) : Node := .stmt (.class_ d.name d.superclass d.methods)

/-- The frame that the methods are made in. -/
def home (d : Declaring) : FrameId :=
  match d.parent with
  | none => d.env
  | some _ => d.machine.arena.nextFrame

/-- The class that is made. -/
def class_ (d : Declaring) : Class :=
  ⟨⟨d.machine.nextId, d.name.text, Evaluation.methodTable d.methods d.home⟩,
    (d.parent.map Class.layers).getD []⟩

/-- The execution is one of these moments, and the class that is extended is what the name of the
superclass stands for then. -/
structure Occurs (moments : Guard) (d : Declaring) : Prop where
  moment : moments d.node d.env d.machine
  extended : Evaluation.superclassValue d.env d.superclass d.machine = .done d.parent d.machine

/-- The function is a method that the execution has put into its class, and the object is of that
class or of one that descends from it. -/
structure Provides (d : Declaring) (f : Function) (o : Object) : Prop where
  method : d.class_.own.methods.find? f.routine.name.text = some f
  descends : d.class_.layers <:+ o.class_.layers

/-- The frame of the methods is there for good, and it holds the class that is extended. -/
structure Stands (d : Declaring) (m : Machine) : Prop where
  captured : m.arena.Captured d.home
  extends_ : ∀ name methods, m.origins[d.home.slot]? = some (.extension name methods) →
    ∃ c, d.parent = some c ∧ m.arena.valueIn? d.home "super" = some (.class_ c)

end Declaring

variable {moments : Guard} {m m₁ m₂ : Machine} {d : Declaring} {c : Class} {f : Function}
  {o : Object} {v : Value} {x : String} {k : FrameId}

/-- A table of methods has those that it was made of, each under its name. -/
theorem exists_of_find?_methodTable {methods : List Routine} {env : FrameId}
    (h : (Evaluation.methodTable methods env).find? x = some f) : ∃ r ∈ methods,
      x = r.name.text ∧ f = ⟨r, env, decide (r.name.text = initializerName)⟩ := by
  obtain ⟨r, hr, heq⟩ := List.mem_map.1 (Bindings.mem_of_find?_ofList h)
  exact ⟨r, hr, (congrArg Prod.fst heq).symm, (congrArg Prod.snd heq).symm⟩

theorem Declaring.Provides.eq (h : d.Provides f o) :
    f = ⟨f.routine, d.home, decide (f.routine.name.text = initializerName)⟩ := by
  obtain ⟨r, -, -, rfl⟩ := exists_of_find?_methodTable h.method
  rfl

/-- What the class is extended from, the object descends from as well. -/
theorem Declaring.Provides.extends_ (h : d.Provides f o) (hparent : d.parent = some c) :
    c.layers <:+ o.class_.layers := by
  refine .trans ?_ h.descends
  simp only [Declaring.class_, Class.layers, hparent, Option.map_some, Option.getD_some]
  exact List.suffix_cons ..

/-- A method that is found belongs to one of the layers, with all those below it. -/
theorem Class.exists_of_method? (h : c.method? x = some f) :
    ∃ c' : Class, c'.layers <:+ c.layers ∧ c'.own.methods.find? x = some f := by
  have hlist (layers : List ClassLayer)
      (h : layers.findSome? (fun layer ↦ layer.methods.find? x) = some f) :
      ∃ c' : Class, c'.layers <:+ layers ∧ c'.own.methods.find? x = some f := by
    induction layers with
    | nil => cases h
    | cons layer rest ih =>
      rw [List.findSome?_cons] at h
      split at h
      next hfind =>
        cases h
        exact ⟨⟨layer, rest⟩, List.suffix_refl _, hfind⟩
      next =>
        obtain ⟨c', hsuffix, hfind⟩ := ih h
        exact ⟨c', hsuffix.trans (List.suffix_cons ..), hfind⟩
  exact hlist c.layers h

theorem Class.eq_of_layers {c' : Class} (h : c'.layers = c.layers) : c' = c := by
  obtain ⟨own, ancestors⟩ := c
  obtain ⟨own', ancestors'⟩ := c'
  obtain ⟨rfl, rfl⟩ := List.cons.inj h
  rfl

/-! ### Values that are accounted for -/

/-- The class and all that it descends from have been made by declarations. -/
def Class.Accounted (moments : Guard) (m : Machine) (c : Class) : Prop :=
  ∀ c' : Class, c'.layers <:+ c.layers →
    ∃ d : Declaring, d.Occurs moments ∧ d.Stands m ∧ d.class_ = c'

structure Object.Accounted (moments : Guard) (m : Machine) (o : Object) : Prop where
  class_ : o.class_.Accounted moments m
  exists_ : o.id < m.fields.size

/-- A method of the class of an object, or of one that this descends from. -/
def Function.MethodOf (moments : Guard) (m : Machine) (f : Function) (o : Object) : Prop :=
  ∃ d : Declaring, d.Occurs moments ∧ d.Stands m ∧ d.Provides f o

/-- A moment at which a method of the object becomes this function value. -/
def Function.BoundAt (moments : Guard) (id : Nat) (f : Function) (o : Object) : Prop :=
  ∃ e env m fuel g m₁ m₂, moments (.expr e) env m ∧
    Evaluation.target (evaluator fuel) e env m = .done (.method g o) m₁ ∧
    Evaluation.Target.toValue (.method g o) m₁ = .done (.function id f) m₂

/-- A function value that a declaration of a function has made. -/
structure Function.Declared (m : Machine) (f : Function) : Prop where
  captured : m.arena.Captured f.closure
  origin : ∀ r, m.origins[f.closure.slot]? ≠ some (.receiver r)
  isInitializer : f.isInitializer = false

/-- A function value that a method has become. -/
structure Function.Bound (moments : Guard) (m : Machine) (id : Nat) (f : Function) : Prop where
  captured : m.arena.Captured f.closure
  origin : m.origins[f.closure.slot]? = some (.receiver f.routine)
  isInitializer : f.isInitializer = decide (f.routine.name.text = initializerName)
  receiver : ∃ o, m.arena.valueIn? f.closure "this" = some (.object o) ∧
    Function.BoundAt moments id f o

def Value.Accounted (moments : Guard) (m : Machine) : Value → Prop
  | .function id f => f.Declared m ∨ f.Bound moments m id
  | .class_ c => c.Accounted moments m
  | .object o => o.Accounted moments m
  | _ => True

def Target.Accounted (moments : Guard) (m : Machine) : Target → Prop
  | .value v => v.Accounted moments m
  | .method f o => f.MethodOf moments m o ∧ o.Accounted moments m

def Flow.Accounted (moments : Guard) (m : Machine) : Flow → Prop
  | .normal => True
  | .returned v => v.Accounted moments m

theorem Class.Accounted.method? (h : o.class_.Accounted moments m)
    (hc : c.layers <:+ o.class_.layers) (hf : c.method? x = some f) : f.MethodOf moments m o := by
  obtain ⟨c', hsuffix, hfind⟩ := Class.exists_of_method? hf
  obtain ⟨d, hoccurs, hstands, rfl⟩ := h c' (hsuffix.trans hc)
  obtain ⟨r, -, rfl, rfl⟩ := exists_of_find?_methodTable hfind
  exact ⟨d, hoccurs, hstands, hfind, hsuffix.trans hc⟩

theorem Class.Accounted.text_of_method? (h : c.Accounted moments m) (hf : c.method? x = some f) :
    f.routine.name.text = x := by
  obtain ⟨c', hsuffix, hfind⟩ := Class.exists_of_method? hf
  obtain ⟨d, -, -, rfl⟩ := h c' hsuffix
  obtain ⟨r, -, rfl, rfl⟩ := exists_of_find?_methodTable hfind
  rfl

/-- A method is an initializer by its name. -/
theorem Function.MethodOf.isInitializer (h : f.MethodOf moments m o) :
    f.isInitializer = decide (f.routine.name.text = initializerName) :=
  let ⟨_, _, _, hprovides⟩ := h
  congrArg Function.isInitializer hprovides.eq

/-- A class is accounted for as soon as it is made. -/
theorem Declaring.Occurs.accounted (h : d.Occurs moments) (hstands : d.Stands m)
    (hparent : ∀ c, d.parent = some c → c.Accounted moments m) :
    d.class_.Accounted moments m := by
  intro c' hsuffix
  rcases List.suffix_cons_iff.1 hsuffix with heq | hbelow
  · exact ⟨d, h, hstands, (Class.eq_of_layers heq).symm⟩
  · cases hp : d.parent with
    | none =>
      simp only [Declaring.class_, hp, Option.map_none, Option.getD_none] at hbelow
      cases List.suffix_nil.1 hbelow
    | some c =>
      simp only [Declaring.class_, hp, Option.map_some, Option.getD_some] at hbelow
      exact hparent c hp c' hbelow

/-! ### Frames that are kept -/

namespace Machine

/-- What was captured stays so, made for what it was, and holds the same `this` and `super`; and
no object is lost. -/
structure Keeps (m m₁ : Machine) : Prop where
  captured : ∀ k, m.arena.Captured k → m₁.arena.Captured k
  origins : ∀ k, m.arena.Captured k → m₁.origins[k.slot]? = m.origins[k.slot]?
  keywords : ∀ k, m.arena.Captured k → ∀ x ∈ keywordNames,
    m₁.arena.valueIn? k x = m.arena.valueIn? k x
  objects : m.fields.size ≤ m₁.fields.size

end Machine

theorem Declaring.Stands.keep (h : d.Stands m) (hkeeps : m.Keeps m₁) : d.Stands m₁ where
  captured := hkeeps.captured _ h.captured
  extends_ name methods horigin := by
    rw [hkeeps.origins _ h.captured] at horigin
    obtain ⟨c, hc, hvalue⟩ := h.extends_ name methods horigin
    exact ⟨c, hc, (hkeeps.keywords _ h.captured "super" (by simp [keywordNames])).trans hvalue⟩

theorem Class.Accounted.keep (h : c.Accounted moments m) (hkeeps : m.Keeps m₁) :
    c.Accounted moments m₁ := fun c' hc' ↦
  let ⟨d, hoccurs, hstands, heq⟩ := h c' hc'
  ⟨d, hoccurs, hstands.keep hkeeps, heq⟩

theorem Object.Accounted.keep (h : o.Accounted moments m) (hkeeps : m.Keeps m₁) :
    o.Accounted moments m₁ :=
  ⟨h.class_.keep hkeeps, Nat.lt_of_lt_of_le h.exists_ hkeeps.objects⟩

theorem Function.MethodOf.keep (h : f.MethodOf moments m o) (hkeeps : m.Keeps m₁) :
    f.MethodOf moments m₁ o :=
  let ⟨d, hoccurs, hstands, hprovides⟩ := h
  ⟨d, hoccurs, hstands.keep hkeeps, hprovides⟩

theorem Function.Declared.keep (h : f.Declared m) (hkeeps : m.Keeps m₁) : f.Declared m₁ where
  captured := hkeeps.captured _ h.captured
  origin r := hkeeps.origins _ h.captured ▸ h.origin r
  isInitializer := h.isInitializer

theorem Function.Bound.keep {id : Nat} (h : f.Bound moments m id) (hkeeps : m.Keeps m₁) :
    f.Bound moments m₁ id where
  captured := hkeeps.captured _ h.captured
  origin := (hkeeps.origins _ h.captured).trans h.origin
  isInitializer := h.isInitializer
  receiver := h.receiver.imp fun _ ho ↦
    ⟨(hkeeps.keywords _ h.captured "this" (by simp [keywordNames])).trans ho.1, ho.2⟩

theorem Value.Accounted.keep (h : v.Accounted moments m) (hkeeps : m.Keeps m₁) :
    v.Accounted moments m₁ := by
  cases v with
  | function id f => exact Or.imp (·.keep hkeeps) (·.keep hkeeps) h
  | class_ c => exact Class.Accounted.keep h hkeeps
  | object o => exact Object.Accounted.keep h hkeeps
  | _ => trivial

theorem Target.Accounted.keep {t : Target} (h : t.Accounted moments m) (hkeeps : m.Keeps m₁) :
    t.Accounted moments m₁ := by
  cases t with
  | value v => exact Value.Accounted.keep h hkeeps
  | method f o => exact ⟨h.1.keep hkeeps, h.2.keep hkeeps⟩

theorem Flow.Accounted.keep {flow : Flow} (h : flow.Accounted moments m) (hkeeps : m.Keeps m₁) :
    flow.Accounted moments m₁ := by
  cases flow with
  | normal => trivial
  | returned v => exact Value.Accounted.keep h hkeeps

theorem Value.Plain.accounted (h : v.Plain) : v.Accounted moments m := by
  cases v <;> first | exact h.elim | trivial

end Lox
