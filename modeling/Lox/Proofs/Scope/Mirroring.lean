import Lox.Proofs.Scope.Runs

/-!
Scopes and frames, at every moment of the run of an accepted program. From the frame that a node
is dealt with in outwards, there is one frame for each scope around the node and the global one at
the end; and each use of a name is for the frame of the innermost scope that has the name, or for
the global frame if no scope around it has. A use of `super`, read or called, is for the class in
that frame and for the object in the one that lies right in it.
-/

set_option autoImplicit false

namespace Lox

open Machine

variable {source : String} {p : Program} {ss : List Stmt} {m m' m₁ : Machine}
  {env env' k k' : FrameId} {Δ : Setting} {id : NodeId} {x : String}

/-! ### What a use of a name is for -/

/-- In these scopes the use of a name is for the frame `k`. With an entry in the table it is the
frame of the innermost scope that has the name, so many links out, and never the global one;
without an entry it is the global frame, and a name that is not there is a runtime error. -/
structure Machine.Addresses (m : Machine) (env : FrameId) (Δ : Setting) (id : NodeId) (x : String)
    (k : FrameId) : Prop where
  entry : ∀ d, m.distances.find? id = some d →
    (∃ s, Δ[d]? = some s ∧ s.declares x = true ∧ m.origins[k.slot]? = some s.origin) ∧
      (∀ i < d, ∀ s, Δ[i]? = some s → s.declares x = false) ∧
      m.arena.ancestor env d = .ok k ∧ k ≠ Arena.globals
  noEntry : m.distances.find? id = none → (∀ s ∈ Δ, s.declares x = false) ∧ k = Arena.globals
  reads : ∀ line v m₁, Evaluation.lookUp id x line env m = .done v m₁ ↔
    m₁ = m ∧ m.arena.valueIn? k x = some v
  writes : ∀ name v m₁, name.text = x → (Evaluation.store id name v env m = .done () m₁ ↔
    ∃ f, m.arena.frame? k = some f ∧ f.values.contains x = true ∧
      m₁ = { m with arena := m.arena.bind k f x v })
  undefined : m.distances.find? id = none → m.arena.valueIn? k x = none →
    (∀ line, Evaluation.lookUp id x line env m = .failed (.runtime line (.undefinedVariable x)) m) ∧
      ∀ name v, name.text = x →
        Evaluation.store id name v env m = .failed (.runtime name.line (.undefinedVariable x)) m

/-- What is answered is the value that the frame has for the name. -/
theorem Outcome.reads_iff {o : Outcome Value} {f : Frame Value} {cause : Failure}
    (h : o = match f.values.find? x with
      | some v => .done v m
      | none => .failed cause m) (hf : m.arena.frame? k = some f) (v : Value) (m₁ : Machine) :
    o = .done v m₁ ↔ m₁ = m ∧ m.arena.valueIn? k x = some v := by
  have hvalue : m.arena.valueIn? k x = f.values.find? x := by simp [Arena.valueIn?, hf]
  rw [h, hvalue]
  cases f.values.find? x with
  | none => simp
  | some w =>
    simp only [Outcome.done.injEq, Option.some.injEq]
    exact and_comm.trans (and_congr_left' eq_comm)

/-- What is written is written to the frame, if that has the name. -/
theorem Outcome.writes_iff {o : Outcome Unit} {f : Frame Value} {v : Value} {cause : Failure}
    (h : o = if f.values.contains x then .done () { m with arena := m.arena.bind k f x v }
      else .failed cause m) (hf : m.arena.frame? k = some f) (m₁ : Machine) :
    o = .done () m₁ ↔ ∃ f, m.arena.frame? k = some f ∧ f.values.contains x = true ∧
      m₁ = { m with arena := m.arena.bind k f x v } := by
  rw [h]
  split
  next hx =>
    refine ⟨fun hm ↦ ⟨f, hf, hx, (Outcome.done.inj hm).2.symm⟩, ?_⟩
    rintro ⟨f', hf', _, hm⟩
    obtain rfl : f = f' := Option.some.inj (hf.symm.trans hf')
    rw [hm]
  next hx =>
    refine ⟨fun hdone ↦ (by cases hdone), ?_⟩
    rintro ⟨f', hf', hx', _⟩
    obtain rfl : f = f' := Option.some.inj (hf.symm.trans hf')
    exact absurd hx' hx

theorem addresses_of_entry {d : Nat} (hmirrors : m.Mirrors env Δ)
    (hroot : ∃ f, m.arena.frame? Arena.globals = some f ∧ f.enclosing = none)
    (hentry : m.distances.find? id = some d) (hd : Δ.distance? x = some d) :
    ∃ k, m.Addresses env Δ id x k := by
  obtain ⟨g, hg, hnone⟩ := hroot
  obtain ⟨⟨s, hs, hdeclares⟩, hinner⟩ := Setting.distance?_eq_some_iff.1 hd
  obtain ⟨k, f, outer, hwalk, hf, houter, horigin, -⟩ := hmirrors.ancestor hs
  refine ⟨k,
    { entry := fun d' hd' ↦ ?_
      noEntry := fun hno ↦ absurd (hno.symm.trans hentry) nofun
      reads := fun line ↦ Outcome.reads_iff (Evaluation.lookUp_of_entry hentry hwalk hf line) hf
      writes := fun name v m₁ hname ↦ ?_
      undefined := fun hno ↦ absurd (hno.symm.trans hentry) nofun }⟩
  · obtain rfl : d' = d := Option.some.inj (hd'.symm.trans hentry)
    refine ⟨⟨s, hs, hdeclares, horigin⟩, hinner, hwalk, ?_⟩
    rintro rfl
    obtain rfl : f = g := Option.some.inj (hf.symm.trans hg)
    rw [hnone] at houter
    cases houter
  · subst hname
    exact Outcome.writes_iff (Evaluation.store_of_entry hentry hwalk hf name v) hf m₁

theorem addresses_globals
    (hroot : ∃ f, m.arena.frame? Arena.globals = some f ∧ f.enclosing = none)
    (hentry : m.distances.find? id = none) (hd : Δ.distance? x = none) :
    m.Addresses env Δ id x Arena.globals := by
  obtain ⟨g, hg, hnone⟩ := hroot
  have hlookUp (line : Nat) := Evaluation.lookUp_of_noEntry hentry hg hnone x line env
  have hstore (name : Name) (v : Value) := Evaluation.store_of_noEntry hentry hg hnone name v env
  refine
    { entry := fun d hno ↦ absurd (hentry.symm.trans hno) nofun
      noEntry := fun _ ↦ ⟨Setting.distance?_eq_none_iff.1 hd, rfl⟩
      reads := fun line ↦ Outcome.reads_iff (hlookUp line) hg
      writes := fun name v m₁ hname ↦ ?_
      undefined := fun _ habsent ↦ ?_ }
  · subst hname
    exact Outcome.writes_iff (hstore name v) hg m₁
  · have hfind : g.values.find? x = none := by simpa [Arena.valueIn?, hg] using habsent
    refine ⟨fun line ↦ (hlookUp line).trans (by rw [hfind]), fun name v hname ↦ ?_⟩
    subst hname
    exact (hstore name v).trans (if_neg (by simp [Bindings.contains, hfind]))

/-- Where the frames mirror the scopes each use of a name is for the frame that it should be. -/
theorem addresses_of_mirrors (hmirrors : m.Mirrors env Δ)
    (hroot : ∃ f, m.arena.frame? Arena.globals = some f ∧ f.enclosing = none)
    (hdistance : m.distances.find? id = Δ.distance? x) : ∃ k, m.Addresses env Δ id x k := by
  cases hd : Δ.distance? x with
  | some d => exact addresses_of_entry hmirrors hroot (hdistance.trans hd) hd
  | none => exact ⟨Arena.globals, addresses_globals hroot (hdistance.trans hd) hd⟩

/-! ### What a use of `super` is for -/

/-- In these scopes the use of `super` is for the class in the frame `k` and for the object in the
frame `l`. The entry in the table leads to the one, and one link less to the other: the frame of
the innermost scope that has `this`, which lies right in that of the class. The method is that of
the class, for the object, and one that is not there is a runtime error. -/
structure Machine.AddressesSuper (m : Machine) (env : FrameId) (Δ : Setting) (id : NodeId)
    (k l : FrameId) : Prop where
  class_ : m.Addresses env Δ id "super" k
  receiver : ∃ inner s f, m.distances.find? id = some (inner + 1) ∧
    (Δ[inner]? = some s ∧ s.declares "this" = true ∧ m.origins[l.slot]? = some s.origin) ∧
    (∀ i < inner, ∀ s, Δ[i]? = some s → s.declares "this" = false) ∧
    m.arena.ancestor env inner = .ok l ∧ l ≠ Arena.globals ∧
    m.arena.frame? l = some f ∧ f.enclosing = some k
  reads : ∃ c o, m.arena.valueIn? k "super" = some (.class_ c) ∧
    m.arena.valueIn? l "this" = some (.object o) ∧ ∀ method,
      Evaluation.superMethod id method env m = match c.method? method.text with
        | some f => .done (.method f o) m
        | none => .failed (.runtime method.line (.undefinedProperty method.text)) m

/-- Where the frames mirror the scopes of a method of a class that extends another one, and what
they hold for `this` and `super` is what it has to be, a use of `super` is for what it should
be. -/
theorem addressesSuper_of_mirrors {c : Code} (hmirrors : m.Mirrors env Δ)
    (hroot : ∃ f, m.arena.frame? Arena.globals = some f ∧ f.enclosing = none)
    (hsuits : ∀ k f, m.arena.frame? k = some f → ∀ x v, f.values.find? x = some v → v.Suits x)
    (horderly : Δ.Orderly c) (howner : Δ.owner = .subclass)
    (hdistance : m.distances.find? id = Δ.distance? "super") :
    ∃ k l, m.AddressesSuper env Δ id k l := by
  obtain ⟨inner, s, t, k, l, f, g, hd, ⟨-, -, hwalk', hg, -, hsuper⟩,
    ⟨ht, hreceiver, hwalk, hf, houter, horigin, hthis⟩, hnearer⟩ :=
    hmirrors.super_frames horderly howner
  have hentry : m.distances.find? id = some (inner + 1) := hdistance.trans hd
  obtain ⟨k', haddresses⟩ := addresses_of_entry hmirrors hroot hentry hd
  obtain ⟨-, -, hwalk'', -⟩ := haddresses.entry _ hentry
  obtain rfl : k' = k := Except.ok.inj (hwalk''.symm.trans hwalk')
  obtain ⟨v, hv⟩ := Option.isSome_iff_exists.1 hsuper
  obtain ⟨c, rfl⟩ := (hsuits k' g hg _ v hv).super rfl
  obtain ⟨w, hw⟩ := Option.isSome_iff_exists.1 hthis
  obtain ⟨o, rfl⟩ := (hsuits l f hf _ w hw).this rfl
  have hregular (i : Nat) (u : OpenScope) (hu : Δ[i]? = some u) : u.Regular :=
    horderly.regular u (List.mem_of_getElem? hu)
  refine ⟨k', l, haddresses, ⟨inner, t, f, hentry,
    ⟨ht, (hregular inner t ht).isReceiver_iff.1 hreceiver, horigin⟩, fun i hi u hu ↦ ?_, hwalk, ?_,
    hf, houter⟩, c, o, ?_, ?_, fun method ↦ ?_⟩
  · exact Bool.eq_false_iff.2 fun hdeclares ↦
      (hnearer i hi u hu).1 ((hregular i u hu).isReceiver_iff.2 hdeclares)
  · obtain ⟨h, hh, hnone⟩ := hroot
    rintro rfl
    obtain rfl : f = h := Option.some.inj (hf.symm.trans hh)
    rw [hnone] at houter
    cases houter
  · simp [Arena.valueIn?, hg, hv]
  · simp [Arena.valueIn?, hf, hw]
  · exact Evaluation.superMethod_of_entry hentry (Action.getAt_of_ancestor hwalk' hg hv)
      (Action.getAt_of_ancestor hwalk hf hw)

/-- The node reads this method of `super`, or calls it. -/
inductive Node.UsesSuper (id : NodeId) (line : Nat) (method : Name) : Node → Prop
  | read : UsesSuper id line method (.expr (.super id line method))
  | called {line' : Nat} {args : List Expr} :
    UsesSuper id line method (.expr (.call (.super id line method) line' args))

theorem Node.UsesSuper.site {n : Node} {line : Nat} {method : Name}
    (h : n.UsesSuper id line method) (hsite : Site ss Δ n.code) :
    Site ss Δ (.expr (.super id line method)) := by
  cases h with
  | read => exact hsite
  | called => exact hsite.part .callee

/-- The node uses the name. A method of `super` that is called is looked up for the call, and is no
node that the evaluator sets to work on. -/
inductive Node.Uses (Δ : Setting) (n : Node) : NodeId → String → Prop
  | own {id : NodeId} {x : String} (part : Part Δ n.code Δ (.use id x)) : Uses Δ n id x
  | super {id : NodeId} {line : Nat} {method : Name} (uses : n.UsesSuper id line method) :
    Uses Δ n id "super"

theorem Node.Uses.site {n : Node} (h : n.Uses Δ id x) (hsite : Site ss Δ n.code) :
    Site ss Δ (.use id x) := by
  cases h with
  | own part => exact hsite.part part
  | super uses => exact (uses.site hsite).part .super

/-! ### Moments -/

/-- At this moment the frames mirror the scopes around the node. What an assignment is to is
settled before its value is worked out, and stays so until then. -/
structure MirroredIn (ss : List Stmt) (Δ : Setting) (n : Node) (env : FrameId) (m : Machine) :
    Prop where
  site : Site ss Δ n.code
  mirrors : m.Mirrors env Δ
  root : ∃ f, m.arena.frame? Arena.globals = some f ∧ f.enclosing = none
  declares : ∀ k f, k ≠ Arena.globals → m.arena.frame? k = some f →
    ∃ o, m.origins[k.slot]? = some o ∧ ∀ x, f.values.contains x = true → x ∈ o.declares
  uses : ∀ id x, n.Uses Δ id x → ∃ k, m.Addresses env Δ id x k ∧
    ∀ name value fuel v m₁, n = .expr (.assign id name value) →
      (evaluator fuel).evaluate value env m = .done v m₁ → m₁.Addresses env Δ id x k
  supers : ∀ id line method, n.UsesSuper id line method → ∃ k l, m.AddressesSuper env Δ id k l

def Mirrored (ss : List Stmt) : Guard := fun n env m ↦ ∃ Δ, MirroredIn ss Δ n env m

/-- Links out of a live frame lead to the same frame after a stretch of a run. -/
theorem Arena.Continues.ancestor {a a' : Arena Value} (h : a.Continues a') {d : Nat}
    (hwalk : a.ancestor env d = .ok k) : a'.ancestor env d = .ok k := by
  have hfrom (start : FrameId) (total d : Nat) {env : FrameId}
      (hwalk : a.ancestorFrom start total d env = .ok k) :
      a'.ancestorFrom start total d env = .ok k := by
    induction d generalizing env with
    | zero => exact hwalk
    | succ d ih =>
      simp only [Arena.ancestorFrom, Arena.frame] at hwalk ⊢
      cases hf : a.frame? env with
      | none => simp [hf] at hwalk
      | some f =>
        obtain ⟨f', hf', houter, -⟩ := h.kept env f hf
        simp only [hf, hf', houter] at hwalk ⊢
        cases henclosing : f.enclosing with
        | none => simp [henclosing] at hwalk
        | some outer =>
          simp only [henclosing] at hwalk ⊢
          exact ih hwalk
  exact hfrom env d d hwalk

/-- A stretch of a run does not change what a use of a name is for. -/
theorem Machine.Addresses.frame_eq (h : m.Addresses env Δ id x k)
    (h' : m₁.Addresses env Δ id x k') (hdistances : m₁.distances.find? id = m.distances.find? id)
    (hcontinues : m.arena.Continues m₁.arena) : k' = k := by
  cases hentry : m.distances.find? id with
  | none => exact (h'.noEntry (hdistances.trans hentry)).2.trans (h.noEntry hentry).2.symm
  | some d =>
    obtain ⟨-, -, hwalk, -⟩ := h.entry d hentry
    obtain ⟨-, -, hwalk', -⟩ := h'.entry d (hdistances.trans hentry)
    exact Except.ok.inj (hwalk'.symm.trans (hcontinues.ancestor hwalk))

/-- What a frame holds for `this` and `super` does not change with where frames lie. -/
theorem Machine.Similar.suits {ρ : FrameId → FrameId} (h : Similar ρ m m') (hfits : m'.Fits ss)
    (k : FrameId) (f : Frame Value) (hf : m.arena.frame? k = some f) (x : String) (v : Value)
    (hv : f.values.find? x = some v) : v.Suits x := by
  obtain ⟨captured, hf'⟩ := h.frames k f hf
  have hv' : (Referring.rename ρ f.values).find? x = some (Referring.rename ρ v) :=
    (Bindings.find?_map ..).trans (by rw [hv]; rfl)
  obtain ⟨-, hsuits⟩ := hfits.values _ _ hf' x _ hv'
  refine ⟨fun hx ↦ ?_, fun hx ↦ ?_⟩
  · obtain ⟨o, ho⟩ := hsuits.this hx
    cases v <;> cases ho
    exact ⟨_, rfl⟩
  · obtain ⟨c, hc⟩ := hsuits.super hx
    cases v <;> cases hc
    exact ⟨_, rfl⟩

theorem mirrored_follows (hread : WellRead [] (.stmts ss)) :
    Guard.Follows (Mirrored ss) (Kept ss) := by
  intro ρ m m' env env' n h henv ⟨hfits, Δ, hstands'⟩
  have hstands : Stands ss m env Δ n.code := (h.stands_iff henv).1 hstands'
  have hsame {m m' : Machine} {ρ : FrameId → FrameId} (h : Similar ρ m m') (hfits : m'.Fits ss)
      {id : NodeId} {x : String} (huses : n.Uses Δ id x) :
      m.distances.find? id = Δ.distance? x := by
    rw [← h.distances]
    exact (hfits.settled Δ _ (huses.site hstands.site)).distance id x rfl
  have hroot {m m' : Machine} {ρ : FrameId → FrameId} (h : Similar ρ m m') :
      ∃ f, m.arena.frame? Arena.globals = some f ∧ f.enclosing = none :=
    let ⟨f, hf, _, hnone⟩ := h.tidy.sound.root
    ⟨f, hf, hnone⟩
  refine ⟨Δ, hstands.site, hstands.mirrors, hroot h, fun k f hne hf ↦ ?_, fun id x huses ↦ ?_,
    fun id line method huses ↦ ?_⟩
  · obtain ⟨captured, hf'⟩ := h.frames k f hf
    have hne' : ρ k ≠ Arena.globals := fun heq ↦
      hne (h.apart k _ ⟨f, hf⟩ h.tidy.sound.captured_globals.live (heq.trans h.globals.symm))
    obtain ⟨o, ho, hall⟩ := hfits.declares (ρ k) _ hne' hf'
    exact ⟨o, (h.origins k ⟨f, hf⟩).symm.trans ho, fun x hx ↦
      hall x ((Bindings.contains_map ..).trans hx)⟩
  · obtain ⟨k, hk⟩ := addresses_of_mirrors hstands.mirrors (hroot h) (hsame h hfits huses)
    refine ⟨k, hk, fun name value fuel v m₁ hn hdone ↦ ?_⟩
    subst hn
    obtain ⟨ρ₁, v', m₁', hdone', hlead, hsim⟩ :=
      ((follows_evaluator fuel).evaluate value h henv).exists_done hdone
    obtain ⟨hcomes, -⟩ :=
      ((minds_evaluator hread fuel).evaluate hfits (hstands'.part .value)).of_done hdone'
    have hmirrors : m₁.Mirrors env Δ :=
      (hsim.mirrors_iff (henv.later hlead)).1 (hstands'.mirrors.grow hcomes.grows)
    have hdistance := hsame hsim hcomes.fits huses
    obtain ⟨k', hk'⟩ := addresses_of_mirrors hmirrors (hroot hsim) hdistance
    have heq := hk.frame_eq hk' (hdistance.trans (hsame h hfits huses).symm) hlead.continues
    exact heq ▸ hk'
  · have hsite := huses.site hstands.site
    exact addressesSuper_of_mirrors hstands.mirrors (hroot h) (h.suits hfits)
      (hsite.orderly hread) (hfits.settled Δ _ hsite).allowed (hsame h hfits (.super huses))

/-- Scopes mirror frames at every moment of the run of an accepted program. -/
theorem Program.always_mirrored (h : Program.ofSource source = .ok p) (fuel : Nat) (sink : Sink)
    (clock : Clock) : p.Always fuel (.initial sink clock) (Mirrored p.statements) :=
  always_of_retaining (mirrored_follows (wellRead_of_ofSource h [])) (always_kept h fuel sink clock)

/-- A counter in a closure, and methods that call the one that they override and read it. -/
theorem Program.mirrored_counter : ∃ p, Program.ofSource
    "fun f() { var i = 0; fun g() { i = i + 1; return i; } return g; }
    class A { m() { return this; } }
    class B < A { m() { return super.m(); } n() { var m = super.m; return m; } }
    { var g = f(); g(); print g(); print B().m(); print B().n()(); }" = .ok p ∧
      p.Always 100 (.initial .unlimited .stopped) (Mirrored p.statements) := by
  refine (exists_of_isOk ?_).imp fun p hp ↦ ⟨hp, always_mirrored hp 100 .unlimited .stopped⟩
  decide +kernel

end Lox
