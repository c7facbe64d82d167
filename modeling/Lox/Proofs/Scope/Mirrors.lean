import Lox.Proofs.Reclamation.Moments
import Lox.Proofs.Scope.Sites

/-!
Frames that mirror scopes. From the frame that a node is dealt with in, one frame lies in the
other as the scopes lie around the node, each made for its scope and holding what is complete in
it, and the global frame comes last. Whatever a function, a class or an object of the machine may
be used for, it is used in frames that mirror the scopes where its code stands. All of this is
said of machines that retain their frames, on which frames only ever gain names.
-/

set_option autoImplicit false

namespace Lox

/-! ### Frames and settings -/

namespace Machine

/-- The frames from `env` outwards are those of the scopes, innermost first, and the global one. -/
inductive Mirrors (m : Machine) : FrameId → Setting → Prop
  | globals : Mirrors m Arena.globals []
  | scope {env outer : FrameId} {f : Frame Value} {s : OpenScope} {Δ : Setting}
    (frame : m.arena.frame? env = some f) (enclosing : f.enclosing = some outer)
    (origin : m.origins[env.slot]? = some s.origin)
    (bound : ∀ x ∈ s.complete, f.values.contains x = true) (outward : Mirrors m outer Δ) :
    Mirrors m env (s :: Δ)

/-- The innermost frame has no other names than the complete ones. -/
def Exact (m : Machine) (env : FrameId) (Δ : Setting) : Prop :=
  ∀ s outer f, Δ = s :: outer → m.arena.frame? env = some f →
    ∀ x, f.values.contains x = true → x ∈ s.complete

/-- A frame is live, lies where it lay and stands for what it stood for, and its names are the
same as before, but that the frame `env` has come to have `names` too. -/
structure Grows (env : FrameId) (names : List String) (m m' : Machine) : Prop where
  frames : ∀ k f, m.arena.frame? k = some f → ∃ f', m'.arena.frame? k = some f' ∧
    f'.enclosing = f.enclosing ∧
    ∀ x, f'.values.contains x = true ↔ f.values.contains x = true ∨ k = env ∧ x ∈ names
  origins : ∀ k, m.arena.Live k → m'.origins[k.slot]? = m.origins[k.slot]?

end Machine

/-- A node, and a frame to deal with it in. -/
structure Stands (ss : List Stmt) (m : Machine) (env : FrameId) (Δ : Setting) (c : Code) :
    Prop where
  site : Site ss Δ c
  mirrors : m.Mirrors env Δ
  exact_ : m.Exact env Δ

/-! ### Values that fit -/

/-- A function that is called in the scopes where its routine stands. -/
def Function.Fits (ss : List Stmt) (m : Machine) (f : Function) : Prop :=
  ∃ Δ, Site ss Δ (.routine f.routine) ∧ m.Mirrors f.closure Δ ∧
    (f.isInitializer = true → ∃ s outer, Δ = s :: outer ∧ "this" ∈ s.complete)

/-- A method that has no receiver yet. -/
def Function.FitsMethod (ss : List Stmt) (m : Machine) (f : Function) : Prop :=
  ∃ Δ, Site ss (.receiver f.routine :: Δ) (.routine f.routine) ∧ m.Mirrors f.closure Δ

def Class.Fits (ss : List Stmt) (m : Machine) (c : Class) : Prop :=
  ∀ l ∈ c.layers, l.methods.All (Function.FitsMethod ss m)

def Object.Fits (ss : List Stmt) (m : Machine) (o : Object) : Prop := o.class_.Fits ss m

def Value.Fits (ss : List Stmt) (m : Machine) : Value → Prop
  | .function _ f => f.Fits ss m
  | .class_ c => c.Fits ss m
  | .object o => o.Fits ss m
  | _ => True

def Target.Fits (ss : List Stmt) (m : Machine) : Target → Prop
  | .value v => v.Fits ss m
  | .method f o => f.FitsMethod ss m ∧ o.Fits ss m

/-- What returns stands in a routine. -/
def Flow.Fits (ss : List Stmt) (m : Machine) (Δ : Setting) : Flow → Prop
  | .normal => True
  | .returned v => v.Fits ss m ∧ Δ.InRoutine

/-- The names that are no variables have the values that they stand for. -/
structure Value.Suits (x : String) (v : Value) : Prop where
  this : x = "this" → ∃ o, v = .object o
  super : x = "super" → ∃ c, v = .class_ c

/-- A machine on which the program has run. -/
structure Machine.Fits (ss : List Stmt) (m : Machine) : Prop where
  retains : m.arena.retains = true
  full : m.arena.free = []
  noted : m.origins.size = m.arena.slots.size
  root : ∃ f, m.arena.frame? Arena.globals = some f ∧ f.enclosing = none
  settled : Settled m.distances [] (.stmts ss)
  values : ∀ k f, m.arena.frame? k = some f → ∀ x v, f.values.find? x = some v →
    v.Fits ss m ∧ v.Suits x
  fields : ∀ table ∈ m.fields, ∀ x v, table.find? x = some v → v.Fits ss m
  declares : ∀ k f, k ≠ Arena.globals → m.arena.frame? k = some f →
    ∃ o, m.origins[k.slot]? = some o ∧ ∀ x, f.values.contains x = true → x ∈ o.declares

/-- A stretch of a run from a machine that fits to one that fits. -/
structure Machine.Comes (ss : List Stmt) (env : FrameId) (names : List String) (m m' : Machine) :
    Prop where
  fits : m'.Fits ss
  grows : m.Grows env names m'

variable {ss : List Stmt} {m m₁ m₂ : Machine} {env k : FrameId} {names names' : List String}
  {Δ : Setting} {c : Code} {x : String} {v : Value}

theorem Value.suits_of_plain (h : x ∉ keywordNames) (v : Value) : v.Suits x :=
  ⟨fun hx ↦ absurd (hx ▸ List.mem_cons_self ..) h,
    fun hx ↦ absurd (hx ▸ List.mem_cons_of_mem _ (List.mem_singleton.2 rfl)) h⟩

theorem Class.Fits.method? {c : Class} (h : c.Fits ss m) {name : String} {f : Function}
    (hf : c.method? name = some f) : f.FitsMethod ss m := by
  obtain ⟨l, hl, hfind⟩ := List.exists_of_findSome?_eq_some hf
  exact Bindings.All.find? (h l hl) hfind

/-- A value that refers to no frame fits any machine. -/
theorem Value.fits_of_within (h : Referring.Within (fun _ ↦ False) v) :
    v.Fits ss m := by
  cases v with
  | function id f => exact h.elim
  | class_ c => exact fun l hl ↦ (h l hl).imp fun f hf ↦ hf.elim
  | object o => exact fun l hl ↦ (h l hl).imp fun f hf ↦ hf.elim
  | _ => trivial

/-! ### Growing -/

namespace Machine

theorem Grows.refl (env : FrameId) (m : Machine) : m.Grows env [] m :=
  ⟨fun _ f hk ↦ ⟨f, hk, rfl, fun x ↦ by simp⟩, fun _ _ ↦ rfl⟩

theorem Grows.live (h : m.Grows env names m₁) (hk : m.arena.Live k) : m₁.arena.Live k := by
  obtain ⟨f, hf⟩ := hk
  obtain ⟨f', hf', -⟩ := h.frames k f hf
  exact ⟨f', hf'⟩

theorem Grows.trans (h : m.Grows env names m₁) (h' : m₁.Grows env names' m₂) :
    m.Grows env (names ++ names') m₂ := by
  refine ⟨fun k f hk ↦ ?_, fun k hk ↦ (h'.origins k (h.live hk)).trans (h.origins k hk)⟩
  obtain ⟨f', hf', henclosing, hnames⟩ := h.frames k f hk
  obtain ⟨f'', hf'', henclosing', hnames'⟩ := h'.frames k f' hf'
  refine ⟨f'', hf'', henclosing'.trans henclosing, fun x ↦ ?_⟩
  rw [hnames', hnames, or_assoc, ← and_or_left, List.mem_append]

/-- Names that a frame gains which was not there before are no gain to the others. -/
theorem Grows.forget (h : m.Grows k names m₁) (hk : ¬m.arena.Live k) (env : FrameId) :
    m.Grows env [] m₁ := by
  refine ⟨fun l f hl ↦ ?_, h.origins⟩
  obtain ⟨f', hf', henclosing, hnames⟩ := h.frames l f hl
  refine ⟨f', hf', henclosing, fun x ↦ (hnames x).trans ⟨fun hx ↦ ?_, fun hx ↦ ?_⟩⟩
  · rcases hx with hx | ⟨rfl, -⟩
    · exact Or.inl hx
    · exact absurd ⟨f, hl⟩ hk
  · exact hx.imp_right fun hx ↦ nomatch hx.2

theorem Grows.elsewhere (h : m.Grows k [] m₁) (env : FrameId) : m.Grows env [] m₁ := by
  refine ⟨fun l f hl ↦ ?_, h.origins⟩
  obtain ⟨f', hf', henclosing, hnames⟩ := h.frames l f hl
  exact ⟨f', hf', henclosing, fun x ↦ (hnames x).trans (by simp)⟩

theorem Mirrors.grow (h : m.Mirrors env Δ) (hgrows : m.Grows k names m₁) : m₁.Mirrors env Δ := by
  induction h with
  | globals => exact .globals
  | @scope env outer f s Δ hframe henclosing horigin hbound _ ih =>
    obtain ⟨f', hf', henclosing', hnames⟩ := hgrows.frames env f hframe
    exact .scope hf' (henclosing'.trans henclosing)
      ((hgrows.origins env ⟨f, hframe⟩).trans horigin)
      (fun x hx ↦ (hnames x).2 (Or.inl (hbound x hx))) ih

theorem Mirrors.live (h : m.Mirrors env Δ) (hroot : m.arena.Live Arena.globals) :
    m.arena.Live env := by
  cases h with
  | globals => exact hroot
  | scope hframe => exact ⟨_, hframe⟩

theorem Fits.live_globals (h : m.Fits ss) : m.arena.Live Arena.globals :=
  let ⟨f, hf, _⟩ := h.root
  ⟨f, hf⟩

end Machine

theorem Function.Fits.grow {f : Function} (h : f.Fits ss m) (hgrows : m.Grows k names m₁) :
    f.Fits ss m₁ := by
  obtain ⟨Δ, hsite, hmirrors, hinit⟩ := h
  exact ⟨Δ, hsite, hmirrors.grow hgrows, hinit⟩

theorem Function.FitsMethod.grow {f : Function} (h : f.FitsMethod ss m)
    (hgrows : m.Grows k names m₁) : f.FitsMethod ss m₁ := by
  obtain ⟨Δ, hsite, hmirrors⟩ := h
  exact ⟨Δ, hsite, hmirrors.grow hgrows⟩

theorem Class.Fits.grow {c : Class} (h : c.Fits ss m) (hgrows : m.Grows k names m₁) :
    c.Fits ss m₁ :=
  fun l hl ↦ (h l hl).imp fun _ hf ↦ hf.grow hgrows

theorem Value.Fits.grow (h : v.Fits ss m) (hgrows : m.Grows k names m₁) : v.Fits ss m₁ := by
  cases v with
  | function id f => exact Function.Fits.grow h hgrows
  | class_ c => exact Class.Fits.grow h hgrows
  | object o => exact Class.Fits.grow h hgrows
  | _ => trivial

theorem Target.Fits.grow {t : Target} (h : t.Fits ss m) (hgrows : m.Grows k names m₁) :
    t.Fits ss m₁ := by
  cases t with
  | value v => exact Value.Fits.grow h hgrows
  | method f o => exact ⟨h.1.grow hgrows, Class.Fits.grow h.2 hgrows⟩

namespace Machine

/-- A machine fits that has kept its frames and holds nothing that has not fitted before. -/
theorem Fits.later (h : m.Fits ss) (hgrows : m.Grows env names m₁)
    (hretains : m₁.arena.retains = m.arena.retains) (hfree : m₁.arena.free = m.arena.free)
    (hnoted : m₁.origins.size = m₁.arena.slots.size) (hdistances : m₁.distances = m.distances)
    (hvalues : ∀ k f, m₁.arena.frame? k = some f → ∀ x v, f.values.find? x = some v →
      v.Fits ss m₁ ∧ v.Suits x)
    (hfields : ∀ table ∈ m₁.fields, ∀ x v, table.find? x = some v → v.Fits ss m)
    (hdeclares : ∀ k f, k ≠ Arena.globals → m₁.arena.frame? k = some f →
      ∃ o, m₁.origins[k.slot]? = some o ∧ ∀ x, f.values.contains x = true → x ∈ o.declares) :
    m.Comes ss env names m₁ where
  grows := hgrows
  fits :=
    { retains := hretains.trans h.retains
      full := hfree.trans h.full
      noted := hnoted
      root := by
        obtain ⟨f, hf, hnone⟩ := h.root
        obtain ⟨f', hf', henclosing, -⟩ := hgrows.frames _ f hf
        exact ⟨f', hf', henclosing.trans hnone⟩
      settled := hdistances ▸ h.settled
      values := hvalues
      fields := fun table htable x v hv ↦ (hfields table htable x v hv).grow hgrows
      declares := hdeclares }

/-- Nothing has changed but what no frame and no object has to do with. -/
theorem Fits.aside (h : m.Fits ss) (env : FrameId) (harena : m₁.arena = m.arena)
    (horigins : m₁.origins = m.origins) (hdistances : m₁.distances = m.distances)
    (hfields : ∀ table ∈ m₁.fields, ∀ x v, table.find? x = some v → v.Fits ss m) :
    m.Comes ss env [] m₁ := by
  have hgrows : m.Grows env [] m₁ :=
    ⟨by rw [harena]; exact (Grows.refl env m).frames, fun _ _ ↦ by rw [horigins]⟩
  refine h.later hgrows (by rw [harena]) (by rw [harena]) (by rw [harena, horigins, h.noted])
    hdistances (fun k f hk x v hv ↦ ?_) hfields ?_
  · rw [harena] at hk
    exact ⟨(h.values k f hk x v hv).1.grow hgrows, (h.values k f hk x v hv).2⟩
  · rw [harena, horigins]
    exact h.declares

theorem Fits.values_grow (h : m.Fits ss) (hgrows : m.Grows env names m₁) {f : Frame Value}
    (hf : m.arena.frame? k = some f) (hv : f.values.find? x = some v) :
    v.Fits ss m₁ ∧ v.Suits x :=
  ⟨(h.values k f hf x v hv).1.grow hgrows, (h.values k f hf x v hv).2⟩

theorem Fits.comes (h : m.Fits ss) (env : FrameId) : m.Comes ss env [] m :=
  ⟨h, Grows.refl env m⟩

theorem Comes.trans (h : m.Comes ss env names m₁) (h' : m₁.Comes ss env names' m₂) :
    m.Comes ss env (names ++ names') m₂ :=
  ⟨h'.fits, h.grows.trans h'.grows⟩

theorem Comes.elsewhere (h : m.Comes ss k [] m₁) (env : FrameId) : m.Comes ss env [] m₁ :=
  ⟨h.fits, h.grows.elsewhere env⟩

end Machine

/-! ### Standing in a frame -/

namespace Stands

/-- Nothing that leaves the names in the frame alone takes a node away from it. -/
theorem grow (h : Stands ss m env Δ c) (hroot : m.arena.Live Arena.globals)
    (hgrows : m.Grows k [] m₁) : Stands ss m₁ env Δ c := by
  refine ⟨h.site, h.mirrors.grow hgrows, fun s outer f' hΔ hf' x hx ↦ ?_⟩
  obtain ⟨f, hf⟩ := h.mirrors.live hroot
  obtain ⟨f'', hf'', -, hnames⟩ := hgrows.frames env f hf
  obtain rfl : f' = f'' := Option.some.inj (hf'.symm.trans hf'')
  rcases (hnames x).1 hx with hx | ⟨-, hx⟩
  · exact h.exact_ s outer f hΔ hf x hx
  · cases hx

/-- A part in the same scopes. -/
theorem part {c' : Code} (h : Stands ss m env Δ c) (hpart : Part Δ c Δ c') :
    Stands ss m env Δ c' :=
  ⟨h.site.part hpart, h.mirrors, h.exact_⟩

/-- The initial value of a variable. -/
theorem initial {name : Name} {e : Expr} (h : Stands ss m env Δ (.stmt (.var name (some e)))) :
    Stands ss m env (Δ.awaiting name.text) (.expr e) := by
  refine ⟨h.site.part .initial, ?_, ?_⟩
  · cases h.mirrors with
    | globals => exact .globals
    | scope hframe henclosing horigin hbound houtward =>
      exact .scope hframe henclosing horigin hbound houtward
  · intro s outer f hΔ hf x hx
    cases Δ with
    | nil => cases hΔ
    | cons t outer' =>
      obtain ⟨rfl, -⟩ := List.cons.inj hΔ
      exact h.exact_ t outer' f rfl hf x hx

end Stands

/-- The frame mirrors the scope with the names that it has gained. -/
theorem Machine.Mirrors.completing (h : m.Mirrors env Δ) (hgrows : m.Grows env names m₁) :
    m₁.Mirrors env (Δ.completing names) := by
  cases h with
  | globals => exact .globals
  | @scope _ outer f s Δ hframe henclosing horigin hbound houtward =>
    obtain ⟨f', hf', henclosing', hnames⟩ := hgrows.frames env f hframe
    refine .scope hf' (henclosing'.trans henclosing)
      ((hgrows.origins env ⟨f, hframe⟩).trans horigin) (fun x hx ↦ (hnames x).2 ?_)
      (houtward.grow hgrows)
    rcases List.mem_append.1 hx with hx | hx
    · exact Or.inr ⟨rfl, hx⟩
    · exact Or.inl (hbound x hx)

theorem Machine.Exact.completing (h : m.Exact env Δ) (hlive : m.arena.Live env)
    (hgrows : m.Grows env names m₁) : m₁.Exact env (Δ.completing names) := by
  intro s outer f' hΔ hf' x hx
  obtain ⟨f, hf⟩ := hlive
  obtain ⟨f'', hf'', -, hnames⟩ := hgrows.frames env f hf
  obtain rfl : f' = f'' := Option.some.inj (hf'.symm.trans hf'')
  cases Δ with
  | nil => cases hΔ
  | cons t outer' =>
    obtain ⟨rfl, -⟩ := List.cons.inj hΔ
    rcases (hnames x).1 hx with hx | ⟨-, hx⟩
    · exact List.mem_append_right _ (h t outer' f rfl hf x hx)
    · exact List.mem_append_left _ hx

/-- The statements after one that has declared its names. -/
theorem Stands.tail {s : Stmt} {rest : List Stmt} (h : Stands ss m env Δ (.stmts (s :: rest)))
    (hroot : m.arena.Live Arena.globals) (hgrows : m.Grows env s.declared m₁) :
    Stands ss m₁ env (Δ.completing s.declared) (.stmts rest) :=
  ⟨h.site.part .tail, h.mirrors.completing hgrows,
    h.exact_.completing (h.mirrors.live hroot) hgrows⟩

end Lox
