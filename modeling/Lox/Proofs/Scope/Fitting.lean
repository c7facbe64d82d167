import Lox.Proofs.Scope.Mirrors

/-!
What the actions on machines do to one that fits. The machines that they lead to fit again, and
names come to a frame only where they are defined. Where frames mirror scopes, a name is found in
the frame of the scope that has it, so that looking it up does not fail.
-/

set_option autoImplicit false

namespace Lox

/-- Failures that a program may end with although it has been resolved. -/
structure Tolerates (bad : Failure → Prop) : Prop where
  runtime : ∀ line cause, bad (.runtime line cause)
  sinkFull : bad .sinkFull

/-- The frame may be given the name. -/
def Machine.MayHold (m : Machine) (env : FrameId) (x : String) : Prop :=
  env ≠ Arena.globals → ∃ o, m.origins[env.slot]? = some o ∧ x ∈ o.declares

variable {ss : List Stmt} {m m₁ : Machine} {env k : FrameId} {names : List String} {Δ : Setting}
  {c : Code} {x : String} {v : Value} {f : Frame Value} {bad : Failure → Prop}

theorem Stands.mayHold (h : Stands ss m env Δ c) (hread : WellRead [] (.stmts ss))
    (hx : x ∈ c.declared) : m.MayHold env x := by
  intro hne
  cases h.mirrors with
  | globals => exact absurd rfl hne
  | @scope _ _ _ s Δ _ _ horigin _ _ =>
    exact ⟨s.origin, horigin, (h.site.orderly hread).declared s Δ rfl hx⟩

/-! ### Frames -/

namespace Machine

theorem grows_bind (hf : m.arena.frame? env = some f)
    (hnames : ∀ y, (x = y ∨ f.values.contains y = true) ↔
      f.values.contains y = true ∨ y ∈ names) :
    m.Grows env names { m with arena := m.arena.bind env f x v } := by
  have hframe := Arena.frame?_bind x v hf
  refine ⟨fun l g hl ↦ ?_, fun _ _ ↦ rfl⟩
  by_cases heq : l = env
  · subst heq
    obtain rfl : f = g := Option.some.inj (hf.symm.trans hl)
    refine ⟨_, (hframe l).trans (if_pos rfl), rfl, fun y ↦ ?_⟩
    rw [Bindings.contains_insert, Bool.or_eq_true, decide_eq_true_eq, hnames]
    simp
  · exact ⟨g, (hframe l).trans ((if_neg heq).trans hl), rfl, fun y ↦ by simp [heq]⟩

/-- A frame gets a value for a name, be it new to the frame or not. -/
theorem Fits.bind (h : m.Fits ss) (hf : m.arena.frame? env = some f)
    (hv : v.Fits ss { m with arena := m.arena.bind env f x v }) (hsuits : v.Suits x)
    (hmay : m.MayHold env x) (hnames : ∀ y, (x = y ∨ f.values.contains y = true) ↔
      f.values.contains y = true ∨ y ∈ names) :
    m.Comes ss env names { m with arena := m.arena.bind env f x v } := by
  have hframe := Arena.frame?_bind x v hf
  have hgrows : m.Grows env names { m with arena := m.arena.bind env f x v } :=
    grows_bind hf hnames
  refine h.later hgrows rfl rfl (h.noted.trans ?_) rfl (fun l g hl y w hw ↦ ?_) h.fields
    fun l g hne hl ↦ ?_
  · simp [Arena.bind, Arena.setFrame]
  · change (m.arena.bind env f x v).frame? l = some g at hl
    rw [hframe] at hl
    split at hl
    · cases hl
      rw [Bindings.find?_insert] at hw
      split at hw
      next hxy =>
        cases hw
        exact ⟨hv, hxy ▸ hsuits⟩
      next => exact h.values_grow hgrows hf hw
    · exact h.values_grow hgrows hl hw
  · change (m.arena.bind env f x v).frame? l = some g at hl
    rw [hframe] at hl
    split at hl
    next heq =>
      cases hl
      subst heq
      obtain ⟨o, ho, hall⟩ := h.declares l f hne hf
      refine ⟨o, ho, fun y hy ↦ ?_⟩
      rw [Bindings.contains_insert, Bool.or_eq_true, decide_eq_true_eq] at hy
      rcases hy with rfl | hy
      · obtain ⟨o', ho', hx⟩ := hmay hne
        obtain rfl : o = o' := Option.some.inj (ho.symm.trans ho')
        exact hx
      · exact hall y hy
    next => exact h.declares l g hne hl

theorem Fits.frame?_push (h : m.Fits ss) (enclosing k : FrameId) :
    (m.arena.push enclosing).frame? k =
      if k = m.arena.nextFrame then some ⟨.empty, some enclosing, false⟩ else m.arena.frame? k :=
  Arena.frame?_push_of_full h.full enclosing k

theorem Fits.not_live_nextFrame (h : m.Fits ss) : ¬m.arena.Live m.arena.nextFrame :=
  Arena.not_live_nextFrame_of_full h.full

theorem Fits.origins_pushed (h : m.Fits ss) (origin : Origin) (enclosing k : FrameId) :
    (m.pushed origin enclosing).origins[k.slot]? =
      if k = m.arena.nextFrame then some origin else m.origins[k.slot]? :=
  getElem?_noteOrigin _ _ _ h.noted (Arena.free_lt_of_full h.full) k

theorem Fits.pushed (h : m.Fits ss) (origin : Origin) (enclosing env : FrameId) :
    m.Comes ss env [] (m.pushed origin enclosing) := by
  have hframe := h.frame?_push enclosing
  have horigins := h.origins_pushed origin enclosing
  have hother (k : FrameId) (hk : m.arena.Live k) : k ≠ m.arena.nextFrame := by
    rintro rfl
    exact h.not_live_nextFrame hk
  have hgrows : m.Grows env [] (m.pushed origin enclosing) := by
    refine ⟨fun k f hk ↦ ⟨f, ?_, rfl, fun x ↦ by simp⟩, fun k hk ↦ ?_⟩
    · exact (hframe k).trans ((if_neg (hother k ⟨f, hk⟩)).trans hk)
    · exact (horigins k).trans (if_neg (hother k hk))
  refine h.later hgrows (Arena.retains_push m.arena enclosing)
    ((Arena.free_push_of_full h.full enclosing).trans h.full.symm)
    (size_noteOrigin _ _ _ h.noted (Arena.free_lt_of_full h.full) _) rfl
    (fun k f hk x v hv ↦ ?_) h.fields fun k f hne hk ↦ ?_
  · change (m.arena.push enclosing).frame? k = some f at hk
    rw [hframe] at hk
    split at hk
    · cases hk
      cases hv
    · exact h.values_grow hgrows hk hv
  · change (m.arena.push enclosing).frame? k = some f at hk
    rw [hframe] at hk
    rw [horigins]
    split at hk
    next heq =>
      cases hk
      exact ⟨origin, if_pos heq, fun x hx ↦ by simp [Bindings.contains] at hx⟩
    next heq =>
      rw [if_neg heq]
      exact h.declares k f hne hk

/-- The frame that has just been opened lies in the frames that mirror what is around it. -/
theorem Fits.mirrors_pushed (h : m.Fits ss) (hmirrors : m.Mirrors k Δ) (s : OpenScope)
    (hs : s.complete = []) :
    (m.pushed s.origin k).Mirrors m.arena.nextFrame (s :: Δ) :=
  .scope ((h.frame?_push k _).trans (if_pos rfl)) rfl
    ((h.origins_pushed s.origin k _).trans (if_pos rfl)) (by rw [hs]; exact fun _ hx ↦ nomatch hx)
    (hmirrors.grow (h.pushed s.origin k k).grows)

theorem Fits.exact_pushed (h : m.Fits ss) (origin : Origin) (Δ : Setting) :
    (m.pushed origin k).Exact m.arena.nextFrame Δ := by
  intro s outer f _ hf x hx
  change (m.arena.push k).frame? _ = some f at hf
  rw [h.frame?_push, if_pos rfl] at hf
  cases hf
  simp [Bindings.contains] at hx

theorem Fits.capture (h : m.Fits ss) (k env : FrameId) :
    m.Comes ss env [] { m with arena := m.arena.capture k } := by
  obtain ⟨hfree, hsize, hretains⟩ := Arena.free_captureFrom m.arena.slots.size m.arena k
  obtain ⟨marked, hmarked⟩ := Arena.frame?_capture m.arena k
  have hback (l : FrameId) (g : Frame Value) (hl : (m.arena.capture k).frame? l = some g) :
      ∃ g', m.arena.frame? l = some g' ∧ g'.values = g.values := by
    rw [hmarked] at hl
    obtain ⟨g', hg', rfl⟩ := Option.map_eq_some_iff.1 hl
    exact ⟨g', hg', rfl⟩
  have hgrows : m.Grows env [] { m with arena := m.arena.capture k } :=
    ⟨fun l f hl ↦ ⟨{ f with captured := f.captured || marked l },
      (hmarked l).trans (by rw [hl, Option.map_some]), rfl, fun x ↦ by simp⟩, fun _ _ ↦ rfl⟩
  refine h.later hgrows hretains hfree (h.noted.trans hsize.symm) rfl
    (fun l g hl x v hv ↦ ?_) h.fields fun l g hne hl ↦ ?_
  · obtain ⟨g', hg', hvalues⟩ := hback l g hl
    exact h.values_grow hgrows hg' (hvalues ▸ hv)
  · obtain ⟨g', hg', hvalues⟩ := hback l g hl
    rw [← hvalues]
    exact h.declares l g' hne hg'

end Machine

open Machine

/-! ### Finding names -/

/-- So many links out from the frame of a node lies the frame of the scope that far out. -/
theorem Machine.Mirrors.ancestorFrom (h : m.Mirrors env Δ) (start : FrameId) (total : Nat)
    {d : Nat} {s : OpenScope} (hs : Δ[d]? = some s) :
    ∃ k f outer, m.arena.ancestorFrom start total d env = .ok k ∧ m.arena.frame? k = some f ∧
      f.enclosing = some outer ∧ m.origins[k.slot]? = some s.origin ∧
      ∀ x ∈ s.complete, f.values.contains x = true := by
  induction h generalizing d with
  | globals => cases hs
  | @scope env outer f t Δ hframe henclosing horigin hbound _ ih =>
    cases d with
    | zero =>
      obtain rfl : t = s := Option.some.inj hs
      exact ⟨env, f, outer, rfl, hframe, henclosing, horigin, hbound⟩
    | succ d =>
      obtain ⟨k, g, outer', hwalk, hrest⟩ := ih hs
      refine ⟨k, g, outer', ?_, hrest⟩
      simp only [Arena.ancestorFrom, Arena.frame_of_frame? hframe, henclosing, hwalk]

theorem Machine.Mirrors.ancestor (h : m.Mirrors env Δ) {d : Nat} {s : OpenScope}
    (hs : Δ[d]? = some s) :
    ∃ k f outer, m.arena.ancestor env d = .ok k ∧ m.arena.frame? k = some f ∧
      f.enclosing = some outer ∧ m.origins[k.slot]? = some s.origin ∧
      ∀ x ∈ s.complete, f.values.contains x = true :=
  h.ancestorFrom env d hs

/-- Around a use of `super` lie the frame of the receiver and, right around this one, the frame of
the class that is extended. -/
theorem Machine.Mirrors.super_frames (h : m.Mirrors env Δ) (horderly : Δ.Orderly c)
    (howner : Δ.owner = .subclass) :
    ∃ inner s t k l f g, Δ.distance? "super" = some (inner + 1) ∧
      (Δ[inner + 1]? = some s ∧ s.origin.IsExtension ∧ m.arena.ancestor env (inner + 1) = .ok k ∧
        m.arena.frame? k = some g ∧ m.origins[k.slot]? = some s.origin ∧
        g.values.contains "super" = true) ∧
      (Δ[inner]? = some t ∧ t.origin.IsReceiver ∧ m.arena.ancestor env inner = .ok l ∧
        m.arena.frame? l = some f ∧ f.enclosing = some k ∧ m.origins[l.slot]? = some t.origin ∧
        f.values.contains "this" = true) ∧
      ∀ i < inner, ∀ u, Δ[i]? = some u → ¬u.origin.IsReceiver ∧ ¬u.origin.IsExtension := by
  obtain ⟨inner, s, t, hd, hs, hextension, hsuper, ht, hreceiver, hthis, hnearer⟩ :=
    horderly.super_nearest howner
  obtain ⟨l, f, outer, hwalk, hf, houter, horigin, hbound⟩ := h.ancestor ht
  obtain ⟨k, g, -, hwalk', hg, -, horigin', hbound'⟩ := h.ancestor hs
  obtain rfl : outer = k := Except.ok.inj ((Arena.ancestor_succ hwalk hf houter).symm.trans hwalk')
  exact ⟨inner, s, t, outer, l, f, g, hd, ⟨hs, hextension, hwalk', hg, horigin', hbound' _ hsuper⟩,
    ⟨ht, hreceiver, hwalk, hf, houter, horigin, hbound _ hthis⟩, hnearer⟩

namespace Action

theorem getAt_of_ancestor {d : Nat} {k : FrameId} {f : Frame Value} {v : Value}
    (hwalk : m.arena.ancestor env d = .ok k) (hf : m.arena.frame? k = some f)
    (hv : f.values.find? x = some v) : getAt env d x m = .done v m := by
  simp [getAt, Arena.getAt, hwalk, Arena.frame_of_frame? hf, hv]

/-- A name that is complete in a scope is found in its frame. -/
theorem comes_getAt (h : m.Fits ss) (hmirrors : m.Mirrors env Δ) {d : Nat} {s : OpenScope}
    (hs : Δ[d]? = some s) (hx : x ∈ s.complete) :
    ∃ v, getAt env d x m = .done v m ∧ v.Fits ss m ∧ v.Suits x := by
  obtain ⟨k, f, outer, hwalk, hf, -, -, hbound⟩ := hmirrors.ancestor hs
  obtain ⟨v, hv⟩ := Option.isSome_iff_exists.1 (hbound x hx)
  obtain ⟨hfits, hsuits⟩ := h.values k f hf x v hv
  exact ⟨v, getAt_of_ancestor hwalk hf hv, hfits, hsuits⟩

theorem comes_get_globals (h : m.Fits ss) (hbad : Tolerates bad) (line : Nat) :
    (get Arena.globals x line m).Ends (fun v m₁ ↦ m₁ = m ∧ v.Fits ss m ∧ v.Suits x)
      fun cause _ ↦ bad cause := by
  obtain ⟨f, hf, houter⟩ := h.root
  unfold get
  rw [Arena.get_outermost hf houter]
  cases hv : f.values.find? x with
  | none => exact hbad.runtime _ _
  | some v => exact ⟨rfl, h.values _ f hf x v hv⟩

/-- The value that is defined may be one that fits only once the frame has the name. -/
theorem comes_define (h : m.Fits ss) (hlive : m.arena.Live env)
    (hv : ∀ m₁, m.Grows env [x] m₁ → v.Fits ss m₁) (hsuits : v.Suits x) (hmay : m.MayHold env x) :
    (define env x v m).Ends (fun _ m₁ ↦ m.Comes ss env [x] m₁) fun cause _ ↦ bad cause := by
  obtain ⟨f, hf⟩ := hlive
  rw [define_eq hf]
  have hnames : ∀ y, (x = y ∨ f.values.contains y = true) ↔
      f.values.contains y = true ∨ y ∈ [x] := fun y ↦ by
    rw [List.mem_singleton, or_comm, @eq_comm _ x]
  exact h.bind hf (hv _ (grows_bind hf hnames)) hsuits hmay hnames

/-- To set a name anew that a frame has gives the frame no other names. -/
theorem comes_define_again (h : m.Fits ss) (hf : m.arena.frame? k = some f)
    (hx : f.values.contains x = true) (hv : v.Fits ss m) (hsuits : v.Suits x) (env : FrameId) :
    (define k x v m).Ends (fun _ m₁ ↦ m.Comes ss env [] m₁) fun cause _ ↦ bad cause := by
  rw [define_eq hf]
  have hmay : m.MayHold k x := fun hne ↦ by
    obtain ⟨o, ho, hall⟩ := h.declares k f hne hf
    exact ⟨o, ho, hall x hx⟩
  have hnames : ∀ y, (x = y ∨ f.values.contains y = true) ↔
      f.values.contains y = true ∨ y ∈ ([] : List String) := fun y ↦ by
    refine ⟨fun hy ↦ Or.inl ?_, fun hy ↦ hy.elim Or.inr fun hy ↦ nomatch hy⟩
    rcases hy with rfl | hy
    · exact hx
    · exact hy
  exact (h.bind hf (hv.grow (grows_bind hf hnames)) hsuits hmay hnames).elsewhere env

theorem comes_assignAt (h : m.Fits ss) (hmirrors : m.Mirrors env Δ) {d : Nat} {s : OpenScope}
    (hs : Δ[d]? = some s) (hx : x ∈ s.complete) (hv : v.Fits ss m) (hsuits : v.Suits x) :
    (assignAt env d x v m).Ends (fun _ m₁ ↦ m.Comes ss env [] m₁) fun cause _ ↦ bad cause := by
  obtain ⟨k, f, outer, hwalk, hf, -, -, hbound⟩ := hmirrors.ancestor hs
  have hholder : m.arena.holderAt env d x = .ok k := by
    simp [Arena.holderAt, hwalk, Arena.frame_of_frame? hf, hbound x hx]
  unfold assignAt
  rw [hholder]
  exact comes_define_again h hf (hbound x hx) hv hsuits env

theorem comes_assign_globals (h : m.Fits ss) (hbad : Tolerates bad) (line : Nat)
    (hv : v.Fits ss m) (hsuits : v.Suits x) (env : FrameId) :
    (assign Arena.globals x v line m).Ends (fun _ m₁ ↦ m.Comes ss env [] m₁)
      fun cause _ ↦ bad cause := by
  obtain ⟨f, hf, houter⟩ := h.root
  unfold assign
  rw [Arena.holder_outermost hf houter]
  by_cases hx : f.values.contains x = true
  · rw [if_pos hx]
    exact comes_define_again h hf hx hv hsuits env
  · rw [if_neg hx]
    exact hbad.runtime _ _

/-- The name stands in the frame at hand. -/
theorem comes_assign (h : m.Fits ss) (hf : m.arena.frame? env = some f)
    (hx : f.values.contains x = true) (line : Nat) (hv : v.Fits ss m) (hsuits : v.Suits x) :
    (assign env x v line m).Ends (fun _ m₁ ↦ m.Comes ss env [] m₁) fun cause _ ↦ bad cause := by
  unfold assign
  rw [Arena.holder_of_contains hf hx]
  exact comes_define_again h hf hx hv hsuits env

end Action

/-! ### Uses of names -/

namespace Evaluation

variable {id : NodeId} {d : Nat}

theorem lookUp_apply (id : NodeId) (x : String) (line : Nat) (env : FrameId) (m : Machine) :
    lookUp id x line env m = (match m.distances.find? id with
      | some d => Action.getAt env d x
      | none => Action.get Arena.globals x line) m :=
  rfl

theorem store_apply (id : NodeId) (name : Name) (v : Value) (env : FrameId) (m : Machine) :
    store id name v env m = (match m.distances.find? id with
      | some d => Action.assignAt env d name.text v
      | none => Action.assign Arena.globals name.text v name.line) m :=
  rfl

/-- With an entry a name is looked up in the frame so many links out. -/
theorem lookUp_of_entry (hentry : m.distances.find? id = some d)
    (hwalk : m.arena.ancestor env d = .ok k) (hf : m.arena.frame? k = some f) (line : Nat) :
    lookUp id x line env m = match f.values.find? x with
      | some v => .done v m
      | none => .failed (.internal (.frame (.unbound x d env))) m := by
  rw [lookUp_apply]
  simp only [hentry, Action.getAt, Arena.getAt, hwalk, Arena.frame_of_frame? hf]
  cases f.values.find? x <;> rfl

theorem lookUp_of_noEntry (hentry : m.distances.find? id = none)
    (hf : m.arena.frame? Arena.globals = some f) (houter : f.enclosing = none) (x : String)
    (line : Nat) (env : FrameId) :
    lookUp id x line env m = match f.values.find? x with
      | some v => .done v m
      | none => .failed (.runtime line (.undefinedVariable x)) m := by
  rw [lookUp_apply]
  simp only [hentry, Action.get, Arena.get_outermost hf houter]
  cases f.values.find? x <;> rfl

theorem store_of_entry (hentry : m.distances.find? id = some d)
    (hwalk : m.arena.ancestor env d = .ok k) (hf : m.arena.frame? k = some f) (name : Name)
    (v : Value) :
    store id name v env m = if f.values.contains name.text then
        .done () { m with arena := m.arena.bind k f name.text v }
      else .failed (.internal (.frame (.unassignable name.text d env))) m := by
  rw [store_apply]
  simp only [hentry, Action.assignAt, Arena.holderAt, hwalk, Arena.frame_of_frame? hf]
  by_cases hx : f.values.contains name.text = true
  · simp only [if_pos hx]
    exact Action.define_eq hf name.text v
  · simp only [if_neg hx]
    rfl

theorem store_of_noEntry (hentry : m.distances.find? id = none)
    (hf : m.arena.frame? Arena.globals = some f) (houter : f.enclosing = none) (name : Name)
    (v : Value) (env : FrameId) :
    store id name v env m = if f.values.contains name.text then
        .done () { m with arena := m.arena.bind Arena.globals f name.text v }
      else .failed (.runtime name.line (.undefinedVariable name.text)) m := by
  rw [store_apply]
  simp only [hentry, Action.assign, Arena.holder_outermost hf houter]
  by_cases hx : f.values.contains name.text = true
  · simp only [if_pos hx]
    exact Action.define_eq hf name.text v
  · simp only [if_neg hx]
    rfl

theorem superMethod_apply (id : NodeId) (method : Name) (env : FrameId) (m : Machine) :
    superMethod id method env m = (match m.distances.find? id with
      | none => Action.fail (.internal (.unresolvedSuper method.line))
      | some distance => Action.getAt env distance "super" >>= fun v ↦ match v with
        | .class_ c => match distance with
          | 0 => Action.fail (.internal .superWithoutThis)
          | inner + 1 => Action.getAt env inner "this" >>= fun w ↦ match w with
            | .object o => match c.method? method.text with
              | some f => pure (.method f o)
              | none => .failAt method.line (.undefinedProperty method.text)
            | _ => Action.fail (.internal .thisNotObject)
        | _ => Action.fail (.internal .superNotClass) : Action Target) m :=
  rfl

/-- Read in the frame of the class and in that of the receiver, `super` names a method. -/
theorem superMethod_of_entry {method : Name} {inner : Nat} {c : Class} {o : Object}
    (hentry : m.distances.find? id = some (inner + 1))
    (hsuper : Action.getAt env (inner + 1) "super" m = .done (.class_ c) m)
    (hthis : Action.getAt env inner "this" m = .done (.object o) m) :
    superMethod id method env m = match c.method? method.text with
      | some f => .done (.method f o) m
      | none => .failed (.runtime method.line (.undefinedProperty method.text)) m := by
  simp only [superMethod_apply, hentry, Action.bind_apply, hsuper, hthis]
  cases c.method? method.text <;> rfl

end Evaluation

namespace Action

/-! ### Objects and the rest of the machine -/

theorem comes_fresh (h : m.Fits ss) (env : FrameId) :
    (fresh m).Ends (fun _ m₁ ↦ m.Comes ss env [] m₁) fun cause _ ↦ bad cause :=
  h.aside env rfl rfl rfl h.fields

theorem comes_now (h : m.Fits ss) (env : FrameId) :
    (now m).Ends (fun _ m₁ ↦ m.Comes ss env [] m₁) fun cause _ ↦ bad cause :=
  h.aside env rfl rfl rfl h.fields

theorem comes_write (h : m.Fits ss) (hbad : Tolerates bad) (text : String) (env : FrameId) :
    (write text m).Ends (fun _ m₁ ↦ m.Comes ss env [] m₁) fun cause _ ↦ bad cause := by
  unfold write
  dsimp only
  split
  · exact h.aside env rfl rfl rfl h.fields
  · exact hbad.sinkFull

theorem comes_capture (h : m.Fits ss) (k env : FrameId) :
    (capture k m).Ends (fun _ m₁ ↦ m.Comes ss env [] m₁) fun cause _ ↦ bad cause :=
  h.capture k env

theorem comes_newObject (h : m.Fits ss) {c : Class} (hc : c.Fits ss m) (env : FrameId) :
    (newObject c m).Ends (fun o m₁ ↦ m.Comes ss env [] m₁ ∧ o.Fits ss m₁)
      fun cause _ ↦ bad cause := by
  have hcomes : m.Comes ss env [] { m with fields := m.fields.push .empty } := by
    refine h.aside env rfl rfl rfl fun table htable x v hv ↦ ?_
    rcases Array.mem_push.1 htable with htable | rfl
    · exact h.fields table htable x v hv
    · cases hv
  exact ⟨hcomes, Class.Fits.grow hc hcomes.grows⟩

theorem comes_field? (h : m.Fits ss) (o : Object) (name : String) :
    (field? o name m).Ends (fun v? m₁ ↦ m₁ = m ∧ ∀ v, v? = some v → v.Fits ss m)
      fun cause _ ↦ bad cause := by
  refine ⟨rfl, fun v hv ↦ ?_⟩
  obtain ⟨table, htable, hfind⟩ := Option.bind_eq_some_iff.1 hv
  exact h.fields table (Array.mem_of_getElem? htable) name v hfind

theorem comes_setField (h : m.Fits ss) (o : Object) (name : String) (hv : v.Fits ss m)
    (env : FrameId) :
    (setField o name v m).Ends (fun _ m₁ ↦ m.Comes ss env [] m₁) fun cause _ ↦ bad cause := by
  refine h.aside env rfl rfl rfl fun table htable x w hw ↦ ?_
  obtain ⟨i, hi, rfl⟩ := Array.mem_iff_getElem.1 htable
  have hold := h.fields _ (Array.getElem_mem (by simpa using hi))
  rw [Array.getElem_modify] at hw
  split at hw
  · rw [Bindings.find?_insert] at hw
    split at hw
    · cases hw
      exact hv
    · exact hold x w hw
  · exact hold x w hw

end Action

end Lox
