import Lox.Proofs.Calls.Entering
import Lox.Proofs.Classes.Declaring

/-!
Machines that account for all their classes, methods and objects, and stretches of a run from one
to another (`Machine.Proceeds`). On such a machine the frame of a receiver lies in the frame of the
methods of a class, and holds an object of that class. A stretch leaves `this` and `super` alone
in every frame that was live before it, whatever it binds elsewhere.
-/

set_option autoImplicit false

namespace Lox

variable {moments : Guard} {D : Distances} {m m₁ m₂ : Machine} {f : Frame Value} {v : Value}
  {x y : String} {k : FrameId} {α β : Type}

/-! ### Frames and machines -/

/-- What the frame holds is accounted for. If it is made for a receiver, it holds one, and lies in
the frame of the methods of its class. -/
structure Frame.Accounted (moments : Guard) (m : Machine) (origin : Option Origin)
    (f : Frame Value) : Prop where
  values : ∀ x v, f.values.find? x = some v → v.Accounted moments m
  receiver : ∀ r, origin = some (.receiver r) → ∃ (g : Function) (o : Object), g.routine = r ∧
    g.MethodOf moments m o ∧ f.enclosing = some g.closure ∧ f.values.find? "this" = some (.object o)

structure Machine.Accounted (moments : Guard) (D : Distances) (m : Machine) : Prop where
  filed : m.Filed
  distances : m.distances = D
  root : m.arena.Captured Arena.globals
  program : m.origins[Arena.globals.slot]? = some .program
  frames : ∀ k f, m.arena.frame? k = some f → f.Accounted moments m m.origins[k.slot]?
  fields : ∀ table ∈ m.fields, ∀ x v, table.find? x = some v → v.Accounted moments m

/-- A stretch of a run to a machine that accounts for what it has. What was live is live, and holds
the same `this` and `super`. -/
structure Machine.Proceeds (moments : Guard) (D : Distances) (m m₁ : Machine) : Prop where
  accounted : m₁.Accounted moments D
  settles : m.Settles m₁
  keywords : ∀ k, m.arena.Live k → ∀ x ∈ keywordNames,
    m₁.arena.valueIn? k x = m.arena.valueIn? k x
  objects : m.fields.size ≤ m₁.fields.size

/-- A stretch of a run from within a frame that has been opened for it, of which nothing is said:
the other frames are as when a stretch proceeds. -/
structure Machine.Enters (moments : Guard) (D : Distances) (origin : Origin) (enclosing : FrameId)
    (m m₁ : Machine) : Prop where
  accounted : m₁.Accounted moments D
  settles : (m.pushed origin enclosing).Settles m₁
  keywords : ∀ k, m.arena.Live k → ∀ x ∈ keywordNames,
    m₁.arena.valueIn? k x = m.arena.valueIn? k x
  objects : m.fields.size ≤ m₁.fields.size

theorem Frame.Accounted.keep {origin : Option Origin} (h : f.Accounted moments m origin)
    (hkeeps : m.Keeps m₁) : f.Accounted moments m₁ origin where
  values x v hv := (h.values x v hv).keep hkeeps
  receiver r hr :=
    let ⟨g, o, hroutine, hmethod, hrest⟩ := h.receiver r hr
    ⟨g, o, hroutine, hmethod.keep hkeeps, hrest⟩

theorem Arena.valueIn?_of_frame? {a : Arena Value} (hf : a.frame? k = some f) (x : String) :
    a.valueIn? k x = f.values.find? x := by
  simp [Arena.valueIn?, hf]

theorem Arena.valueIn?_bind {a : Arena Value} (hf : a.frame? k = some f) (l : FrameId) :
    (a.bind k f x v).valueIn? l y = if l = k ∧ x = y then some v else a.valueIn? l y := by
  unfold Arena.valueIn?
  rw [Arena.frame?_bind x v hf]
  by_cases hl : l = k
  · subst hl
    simp [hf]
  · simp [hl]

theorem Arena.valueIn?_capture (a : Arena Value) (id l : FrameId) :
    (a.capture id).valueIn? l y = a.valueIn? l y := by
  obtain ⟨marked, hmarked⟩ := Arena.frame?_capture a id
  unfold Arena.valueIn?
  rw [hmarked]
  cases a.frame? l <;> rfl

namespace Machine

theorem Proceeds.keeps (h : m.Proceeds moments D m₁) : m.Keeps m₁ where
  captured _ hk := h.settles.continues.captured hk
  origins k hk := h.settles.noted k hk.live
  keywords k hk := h.keywords k hk.live
  objects := h.objects

theorem Proceeds.trans (h : m.Proceeds moments D m₁) (h' : m₁.Proceeds moments D m₂) :
    m.Proceeds moments D m₂ where
  accounted := h'.accounted
  settles := h.settles.trans h'.settles
  keywords k hk x hx :=
    (h'.keywords k (h.settles.continues.live hk) x hx).trans (h.keywords k hk x hx)
  objects := Nat.le_trans h.objects h'.objects

theorem keeps_release (m : Machine) (id : FrameId) :
    m.Keeps { m with arena := m.arena.release id } :=
  ⟨fun _ hk ↦ hk.release id, fun _ _ ↦ rfl,
    fun _ hk _ _ ↦ by simp only [Arena.valueIn?, hk.frame?_release id], Nat.le_refl _⟩

namespace Accounted

/-- A machine is accounted for if its frames and fields are by what came before. -/
theorem later (h : m.Accounted moments D) (hkeeps : m.Keeps m₁) (hfiled : m₁.Filed)
    (hdistances : m₁.distances = m.distances)
    (hframes : ∀ k f, m₁.arena.frame? k = some f → f.Accounted moments m m₁.origins[k.slot]?)
    (hfields : ∀ table ∈ m₁.fields, ∀ x v, table.find? x = some v → v.Accounted moments m) :
    m₁.Accounted moments D where
  filed := hfiled
  distances := hdistances.trans h.distances
  root := hkeeps.captured _ h.root
  program := (hkeeps.origins _ h.root).trans h.program
  frames k f hf := (hframes k f hf).keep hkeeps
  fields table htable x v hv := (hfields table htable x v hv).keep hkeeps

/-! ### One step at a time -/

/-- Nothing has changed in the frames, and the fields are accounted for. -/
theorem aside (h : m.Accounted moments D) (harena : m₁.arena = m.arena)
    (horigins : m₁.origins = m.origins) (hdistances : m₁.distances = m.distances)
    (hobjects : m.fields.size ≤ m₁.fields.size)
    (hfields : ∀ table ∈ m₁.fields, ∀ x v, table.find? x = some v → v.Accounted moments m) :
    m.Proceeds moments D m₁ := by
  have hsettles := h.filed.settles_of_eq harena horigins
  have hkeeps : m.Keeps m₁ :=
    ⟨fun k hk ↦ harena ▸ hk, fun k _ ↦ by rw [horigins], fun k _ x _ ↦ by rw [harena], hobjects⟩
  refine ⟨h.later hkeeps hsettles.filed hdistances (fun k f hf ↦ ?_) hfields, hsettles,
    fun k _ x _ ↦ by rw [harena], hobjects⟩
  rw [harena] at hf
  rw [horigins]
  exact h.frames k f hf

/-- An identity has been given away. -/
theorem identified (h : m.Accounted moments D) :
    m.Proceeds moments D { m with nextId := m.nextId + 1 } :=
  h.aside rfl rfl rfl (Nat.le_refl _) h.fields

theorem value (h : m.Accounted moments D) (hv : m.arena.valueIn? k x = some v) :
    v.Accounted moments m := by
  obtain ⟨f, hf, hfind⟩ := Option.bind_eq_some_iff.1 hv
  exact (h.frames k f hf).values x v hfind

theorem proceeds (h : m.Accounted moments D) : m.Proceeds moments D m :=
  h.aside rfl rfl rfl (Nat.le_refl _) h.fields

/-- A frame gets a value for a name that is neither `this` nor `super`, or it is one that nothing
rests on. -/
theorem bind (h : m.Accounted moments D) (hf : m.arena.frame? k = some f)
    (hv : v.Accounted moments m)
    (hx : x ∉ keywordNames ∨
      ¬m.arena.Captured k ∧ ∀ r, m.origins[k.slot]? ≠ some (.receiver r)) :
    ({ m with arena := m.arena.bind k f x v } : Machine).Accounted moments D := by
  have hframe := Arena.frame?_bind x v hf
  have hkeeps : m.Keeps { m with arena := m.arena.bind k f x v } := by
    refine ⟨fun l hl ↦ ?_, fun _ _ ↦ rfl, fun l hl y hy ↦ ?_, Nat.le_refl _⟩
    · exact (Arena.continues_bind x v hf).captured hl
    · refine (Arena.valueIn?_bind hf l).trans (if_neg ?_)
      rintro ⟨rfl, rfl⟩
      rcases hx with hx | ⟨hx, -⟩
      · exact hx hy
      · exact hx hl
  refine h.later hkeeps (h.filed.settles_bind hf x v).filed rfl (fun l g hl ↦ ?_) h.fields
  change (m.arena.bind k f x v).frame? l = some g at hl
  rw [hframe] at hl
  split at hl
  next heq =>
    cases hl
    subst heq
    refine ⟨fun y w hw ↦ ?_, fun r hr ↦ ?_⟩
    · rw [Bindings.find?_insert] at hw
      split at hw
      · cases hw
        exact hv
      · exact (h.frames l f hf).values y w hw
    · obtain ⟨g, o, hroutine, hmethod, henclosing, hthis⟩ := (h.frames l f hf).receiver r hr
      refine ⟨g, o, hroutine, hmethod, henclosing, ?_⟩
      rw [Bindings.find?_insert, if_neg, hthis]
      rintro rfl
      rcases hx with hx | ⟨-, hx⟩
      · exact hx (by simp [keywordNames])
      · exact hx r hr
  next => exact h.frames l g hl

theorem proceeds_bind (h : m.Accounted moments D) (hf : m.arena.frame? k = some f)
    (hv : v.Accounted moments m) (hx : x ∉ keywordNames) :
    m.Proceeds moments D { m with arena := m.arena.bind k f x v } where
  accounted := h.bind hf hv (Or.inl hx)
  settles := h.filed.settles_bind hf x v
  keywords l _ y hy := by
    refine (Arena.valueIn?_bind hf l).trans (if_neg ?_)
    rintro ⟨-, rfl⟩
    exact hx hy
  objects := Nat.le_refl _

theorem capture (h : m.Accounted moments D) (id : FrameId) :
    m.Proceeds moments D { m with arena := m.arena.capture id } := by
  have hsettles := h.filed.settles_capture id
  have hkeeps : m.Keeps { m with arena := m.arena.capture id } :=
    ⟨fun k hk ↦ hsettles.continues.captured hk, fun _ _ ↦ rfl,
      fun k _ x _ ↦ Arena.valueIn?_capture _ _ _, Nat.le_refl _⟩
  refine ⟨h.later hkeeps hsettles.filed rfl (fun k f hf ↦ ?_) h.fields, hsettles,
    fun k _ x _ ↦ Arena.valueIn?_capture _ _ _, Nat.le_refl _⟩
  obtain ⟨marked, hmarked⟩ := Arena.frame?_capture m.arena id
  change (m.arena.capture id).frame? k = some f at hf
  rw [hmarked] at hf
  obtain ⟨g, hg, rfl⟩ := Option.map_eq_some_iff.1 hf
  exact ⟨(h.frames k g hg).values, (h.frames k g hg).receiver⟩

theorem release (h : m.Accounted moments D) (id : FrameId) :
    ({ m with arena := m.arena.release id } : Machine).Accounted moments D := by
  refine h.later (m.keeps_release id) ⟨h.filed.arena.release id, ?_, ?_⟩ rfl (fun k f hf ↦ ?_)
    h.fields
  · exact (Arena.retains_release _ _).trans h.filed.releases
  · exact h.filed.noted.trans (Arena.size_release _ _).symm
  · change (m.arena.release id).frame? k = some f at hf
    rw [Arena.frame?_release] at hf
    split at hf
    · cases hf
    · exact h.frames k f hf

/-! ### Frames of their own -/

theorem ne_nextFrame (h : m.Accounted moments D) (hk : m.arena.Live k) : k ≠ m.arena.nextFrame := by
  rintro rfl
  exact h.filed.arena.not_live_nextFrame hk

theorem frame?_pushed (h : m.Accounted moments D) (enclosing : FrameId) (hk : m.arena.Live k) :
    (m.arena.push enclosing).frame? k = m.arena.frame? k :=
  h.filed.arena.frame?_push_of_live enclosing hk

theorem origins_pushed (h : m.Accounted moments D) (origin : Origin) (enclosing k : FrameId) :
    (m.pushed origin enclosing).origins[k.slot]? =
      if k = m.arena.nextFrame then some origin else m.origins[k.slot]? :=
  getElem?_noteOrigin _ _ _ h.filed.noted h.filed.free_lt k

theorem keeps_pushed (h : m.Accounted moments D) (origin : Origin) (enclosing : FrameId) :
    m.Keeps (m.pushed origin enclosing) := by
  refine ⟨fun k hk ↦ ?_, fun k hk ↦ ?_, fun k hk x _ ↦ ?_, Nat.le_refl _⟩
  · obtain ⟨f, hf, hcaptured⟩ := hk
    exact ⟨f, (h.frame?_pushed enclosing ⟨f, hf⟩).trans hf, hcaptured⟩
  · exact (h.origins_pushed origin enclosing k).trans (if_neg (h.ne_nextFrame hk.live))
  · change ((m.arena.push enclosing).frame? k).bind _ = (m.arena.frame? k).bind _
    rw [h.frame?_pushed enclosing hk.live]

/-- A frame that is made for no receiver and still empty. -/
theorem pushed (h : m.Accounted moments D) (origin : Origin) (horigin : ¬origin.IsReceiver)
    (enclosing : FrameId) : m.Enters moments D origin enclosing (m.pushed origin enclosing) := by
  have hfiled := h.filed.pushed origin enclosing
  refine ⟨h.later (h.keeps_pushed origin enclosing) hfiled rfl (fun k f hf ↦ ?_) h.fields,
    hfiled.settles_of_eq rfl rfl, fun k hk x _ ↦ ?_, Nat.le_refl _⟩
  · change (m.arena.push enclosing).frame? k = some f at hf
    rw [h.filed.arena.frame?_push] at hf
    rw [h.origins_pushed]
    split at hf
    next heq =>
      cases hf
      rw [if_pos heq]
      refine ⟨fun x v hv ↦ by simp at hv, fun r hr ↦ ?_⟩
      cases hr
      exact absurd trivial horigin
    next hne =>
      rw [if_neg hne]
      exact h.frames k f hf
  · change ((m.arena.push enclosing).frame? k).bind _ = (m.arena.frame? k).bind _
    rw [h.frame?_pushed enclosing hk]

theorem keeps_openedWith (h : m.Accounted moments D) (origin : Origin) (enclosing : FrameId)
    (values : Bindings String Value) : m.Keeps (m.openedWith origin enclosing values) := by
  have hframe {k : FrameId} (hk : m.arena.Live k) :
      (m.openedWith origin enclosing values).arena.frame? k = m.arena.frame? k :=
    (h.filed.frame?_openedWith origin enclosing values k).trans (if_neg (h.ne_nextFrame hk))
  refine ⟨fun k hk ↦ ?_, (h.keeps_pushed origin enclosing).origins, fun k hk x _ ↦ ?_,
    Nat.le_refl _⟩
  · obtain ⟨f, hf, hcaptured⟩ := hk
    exact ⟨f, (hframe ⟨f, hf⟩).trans hf, hcaptured⟩
  · simp only [Arena.valueIn?, hframe hk.live]

/-- A frame with these values from the start. -/
theorem openedWith (h : m.Accounted moments D) {origin : Origin} {enclosing : FrameId}
    {values : Bindings String Value}
    (hnew : (⟨values, some enclosing, false⟩ : Frame Value).Accounted moments m (some origin)) :
    m.Enters moments D origin enclosing (m.openedWith origin enclosing values) := by
  have hsettles := h.filed.settles_openedWith origin enclosing values
  refine ⟨h.later (h.keeps_openedWith origin enclosing values) hsettles.filed rfl
    (fun k f hf ↦ ?_) h.fields, hsettles, fun k hk x _ ↦ ?_, Nat.le_refl _⟩
  · rw [h.filed.frame?_openedWith] at hf
    change f.Accounted moments m (m.pushed origin enclosing).origins[k.slot]?
    rw [h.origins_pushed]
    split at hf
    next heq =>
      cases hf
      rw [if_pos heq]
      exact hnew
    next hne =>
      rw [if_neg hne]
      exact h.frames k f hf
  · simp only [Arena.valueIn?, h.filed.frame?_openedWith, if_neg (h.ne_nextFrame hk)]

end Accounted

variable {origin : Origin} {enclosing : FrameId}

theorem Enters.trans (h : m.Enters moments D origin enclosing m₁)
    (h' : m₁.Proceeds moments D m₂) (hm : m.Accounted moments D) :
    m.Enters moments D origin enclosing m₂ where
  accounted := h'.accounted
  settles := h.settles.trans h'.settles
  keywords k hk x hx := by
    have hlive : m₁.arena.Live k :=
      h.settles.continues.live ((hm.filed.arena.live_push enclosing).2 (Or.inr hk))
    exact (h'.keywords k hlive x hx).trans (h.keywords k hk x hx)
  objects := Nat.le_trans h.objects h'.objects

/-- What begins in a frame of its own proceeds once that frame is released. -/
theorem Enters.release (h : m.Enters moments D origin enclosing m₁) (hm : m.Accounted moments D) :
    m.Proceeds moments D { m₁ with arena := m₁.arena.release m.arena.nextFrame } where
  accounted := h.accounted.release _
  settles := hm.filed.settles_release h.settles
  keywords k hk x hx := by
    rw [← h.keywords k hk x hx]
    unfold Arena.valueIn?
    rw [Arena.frame?_release, if_neg fun hdrop ↦ hm.ne_nextFrame hk hdrop.1]
  objects := h.objects

/-- Or once it is captured. -/
theorem Enters.capture (h : m.Enters moments D origin enclosing m₁) (hm : m.Accounted moments D) :
    m.Proceeds moments D { m₁ with arena := m₁.arena.capture m.arena.nextFrame } where
  accounted := (h.accounted.capture _).accounted
  settles := hm.filed.settles_capture_opened h.settles
  keywords k hk x hx := (Arena.valueIn?_capture _ _ _).trans (h.keywords k hk x hx)
  objects := h.objects

end Machine

end Lox
