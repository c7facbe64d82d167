import Lox.Proofs.Reclamation.Sessions
import Lox.Proofs.Scope.Accepted
import Lox.Proofs.Scope.Minding

/-!
Runs of accepted programs. The machine on which one starts fits, and from then on each node is set
to work on where it stands, on a machine that fits: this is shown of machines that retain their
frames. What a machine that releases frames has of them lies as on one that retains them, so what
is said of frames and scopes goes from the one to the other, at every moment of a run.
-/

set_option autoImplicit false

namespace Lox

open Machine

variable {source : String} {p : Program} {ss : List Stmt} {m m' : Machine} {env env' : FrameId}
  {Δ : Setting} {c : Code} {bad : Failure → Prop} {sub : Evaluator} {sink : Sink}
  {clock : Clock} {fuel : Nat}

def Node.code : Node → Code
  | .expr e => .expr e
  | .stmt s => .stmt s

/-! ### Runs on machines that retain their frames -/

/-- A watched run works where its nodes stand, if it does not fail at an early assignment. -/
theorem minds_watched (hread : WellRead [] (.stmts ss)) (hbad : Tolerates bad) {guard : Guard}
    {alarm : Failure}
    (hguard : ∀ {m env Δ n}, m.Fits ss → Stands ss m env Δ (Node.code n) →
      guard n env m ∨ bad alarm)
    (hearly : ∀ {m env Δ id name value v m₁} fuel, m.Fits ss →
      Stands ss m env Δ (.expr (.assign id name value)) →
      guard (.expr (.assign id name value)) env m → Δ.Awaiting name.text →
      (watched guard alarm fuel).evaluate value env m = .done v m₁ →
      bad (.internal (.frame (.unassignable name.text 0 env)))) (fuel : Nat) :
    (watched guard alarm fuel).Minds ss bad := by
  induction fuel with
  | zero => exact ⟨fun _ _ ↦ trivial, fun _ _ ↦ trivial⟩
  | succ fuel ih =>
    refine ⟨fun {m env Δ e} h hstands ↦ ?_, fun {m env Δ s} h hstands ↦ ?_⟩
    · simp only [watched]
      by_cases hpass : guard (.expr e) env m
      · rw [if_pos hpass]
        refine Evaluation.minds_evaluate hread hbad ih h hstands
          fun id name value v m₁ heq hawaiting hdone ↦ ?_
        subst heq
        exact hearly fuel h hstands hpass hawaiting hdone
      · rw [if_neg hpass]
        exact (hguard (n := .expr e) h hstands).resolve_left hpass
    · simp only [watched]
      by_cases hpass : guard (.stmt s) env m
      · rw [if_pos hpass]
        exact Evaluation.minds_execute hread hbad ih h fuel hstands
      · rw [if_neg hpass]
        exact (hguard (n := .stmt s) h hstands).resolve_left hpass

/-- Whatever a run may fail with, it works where its nodes stand. -/
theorem minds_evaluator (hread : WellRead [] (.stmts ss)) (fuel : Nat) :
    (evaluator fuel).Minds ss fun _ ↦ True := by
  have hminds : (watched (fun _ _ _ ↦ True) .sinkFull fuel).Minds ss fun _ ↦ True :=
    minds_watched hread ⟨fun _ _ ↦ trivial, trivial⟩ (fun _ _ ↦ Or.inl trivial)
      (fun _ _ _ _ _ _ ↦ trivial) fuel
  rwa [watched_true] at hminds

/-- Outside of all routines nothing returns. -/
theorem minds_runStatements (hsub : sub.Minds ss bad) (h : m.Fits ss) (body : List Stmt)
    (hstands : Stands ss m Arena.globals [] (.stmts body)) :
    (Program.runStatements sub body m).Ends (fun _ _ ↦ True) fun cause _ ↦ bad cause := by
  induction body generalizing m with
  | nil => trivial
  | cons s body ih =>
    refine Action.ends_bind (hsub.execute h (hstands.part .head)) ?_
    rintro flow m₁ ⟨hcomes, hflow⟩
    cases flow with
    | normal => exact ih hcomes.fits (hstands.tail h.live_globals hcomes.grows)
    | returned v =>
      obtain ⟨-, s, hs, -⟩ := hflow
      cases hs

/-- What a program starts on: its distances, and a global frame with the native functions. -/
theorem fits_initial (h : Program.ofSource source = .ok p) (sink : Sink) (clock : Clock) :
    ((Machine.initial sink clock).retaining.install p.distances).Fits p.statements := by
  have hframe (k : FrameId) :
      ((Machine.initial sink clock).retaining.install p.distances).arena.frame? k =
        if k = Arena.globals then some ⟨Native.bindings, none, true⟩ else none :=
    Arena.frame?_ofGlobals Native.bindings k
  refine
    { retains := rfl
      full := rfl
      noted := rfl
      root := ⟨_, (hframe _).trans (if_pos rfl), rfl⟩
      settled := Program.settled_of_ofSource h
      values := fun k f hk x v hv ↦ ?_
      fields := fun table htable ↦ absurd htable (Array.not_mem_empty table)
      declares := fun k f hne hk ↦ ?_ }
  · rw [hframe] at hk
    split at hk
    · cases hk
      refine ⟨Value.fits_of_within ?_, Value.suits_of_plain (fun hx ↦ ?_) v⟩
      · have hnative : Native.bindings.All (Referring.Within fun _ ↦ False) := by
          refine Bindings.all_ofList fun e he ↦ ?_
          obtain ⟨native, -, rfl⟩ := List.mem_map.1 he
          exact trivial
        exact hnative.find? hv
      · have hnone : ∀ y ∈ keywordNames, Native.bindings.find? y = none := by decide
        rw [hnone x hx] at hv
        cases hv
    · cases hk
  · rw [hframe, if_neg hne] at hk
    cases hk

theorem stands_initial (ss : List Stmt) (m : Machine) :
    Stands ss m Arena.globals [] (.stmts ss) :=
  ⟨.refl, .globals, fun _ _ _ hΔ ↦ nomatch hΔ⟩

/-- A node that is set to work on where it stands, on a machine that fits. -/
def Kept (ss : List Stmt) : Guard := fun n env m ↦ m.Fits ss ∧ ∃ Δ, Stands ss m env Δ n.code

/-- At every moment the frames mirror the scopes around the node at hand. -/
theorem Program.always_kept (h : Program.ofSource source = .ok p) (fuel : Nat) (sink : Sink)
    (clock : Clock) :
    p.Always fuel (Machine.initial sink clock).retaining (Kept p.statements) := by
  have hbad : Tolerates fun cause ↦ cause ≠ .internal .superNotClass :=
    ⟨fun _ _ ↦ nofun, nofun⟩
  have hminds : (watched (Kept p.statements) (.internal .superNotClass) fuel).Minds p.statements
      fun cause ↦ cause ≠ .internal .superNotClass :=
    minds_watched (Program.wellRead_of_ofSource h []) hbad
      (fun hfits hstands ↦ Or.inl ⟨hfits, _, hstands⟩) (fun _ _ _ _ _ _ ↦ nofun) fuel
  exact always_of_quiet ((minds_runStatements hminds (fits_initial h sink clock) p.statements
    (stands_initial _ _)).quiet fun _ hquiet ↦ hquiet rfl)

/-! ### Similar machines -/

namespace Outcome.Follows

variable {α : Type} [Referring α] {ρ : FrameId → FrameId} {o o' : Outcome α} {a : α}
  {m₁ m₁' : Machine}

theorem exists_done (h : o.Follows (fun _ ↦ False) (fun _ ↦ False) ρ m o')
    (hdone : o = .done a m₁) : ∃ ρ₁ a' m₁', o' = .done a' m₁' ∧ Leads ρ m ρ₁ m₁ ∧
      Similar ρ₁ m₁ m₁' := by
  cases h with
  | done hlead hsim ha =>
    cases hdone
    exact ⟨_, _, _, rfl, hlead, hsim⟩
  | left hstop hallowed => exact hallowed.elim
  | right hstop hallowed => exact hallowed.elim
  | _ => cases hdone

theorem exists_done' (h : o.Follows (fun _ ↦ False) (fun _ ↦ False) ρ m o')
    (hdone : o' = .done a m₁') : ∃ a' m₁, o = .done a' m₁ := by
  cases h with
  | done hlead hsim ha => exact ⟨_, _, rfl⟩
  | left hstop hallowed => exact hallowed.elim
  | right hstop hallowed => exact hallowed.elim
  | _ => cases hdone

end Outcome.Follows

namespace Machine

variable {ρ : FrameId → FrameId}

/-- Frames mirror scopes on the one machine if they do on the other. -/
theorem Similar.mirrors_iff (h : Similar ρ m m') (henv : Points ρ m env env') :
    m'.Mirrors env' Δ ↔ m.Mirrors env Δ := by
  obtain ⟨hlive, rfl⟩ := henv
  constructor
  · intro hmirrors
    generalize hrenamed : ρ env = k at hmirrors
    induction hmirrors generalizing env with
    | globals =>
      rw [h.apart env _ hlive h.tidy.sound.captured_globals.live (hrenamed.trans h.globals.symm)]
      exact .globals
    | @scope k outer' g s Δ hframe henclosing horigin hbound _ ih =>
      subst hrenamed
      obtain ⟨f, hf⟩ := hlive
      obtain ⟨captured, hf'⟩ := h.frames env f hf
      obtain rfl := Option.some.inj (hframe.symm.trans hf')
      obtain ⟨outer, houter, hrenamed⟩ := Option.map_eq_some_iff.1 henclosing
      refine .scope hf houter ((h.origins env ⟨f, hf⟩).symm.trans horigin) (fun x hx ↦ ?_)
        (ih (h.tidy.sound.linked env f outer hf houter) hrenamed)
      rw [← hbound x hx]
      exact (Bindings.contains_map ..).symm
  · intro hmirrors
    induction hmirrors with
    | globals => exact h.globals.symm ▸ .globals
    | @scope env outer f s Δ hframe henclosing horigin hbound _ ih =>
      obtain ⟨captured, hf'⟩ := h.frames env f hframe
      refine .scope hf' (by rw [henclosing]; rfl) ((h.origins env ⟨f, hframe⟩).trans horigin)
        (fun x hx ↦ ?_) (ih (h.tidy.sound.linked env f outer hframe henclosing))
      rw [← hbound x hx]
      exact Bindings.contains_map ..

theorem Similar.exact_iff (h : Similar ρ m m') (henv : Points ρ m env env') :
    m'.Exact env' Δ ↔ m.Exact env Δ := by
  obtain ⟨⟨g, hg⟩, rfl⟩ := henv
  obtain ⟨captured, hg'⟩ := h.frames env g hg
  refine ⟨fun hexact s outer f hΔ hf x hx ↦ ?_, fun hexact s outer f' hΔ hf' x hx ↦ ?_⟩
  · obtain rfl : g = f := Option.some.inj (hg.symm.trans hf)
    exact hexact s outer _ hΔ hg' x ((Bindings.contains_map ..).trans hx)
  · obtain rfl := Option.some.inj (hg'.symm.trans hf')
    exact hexact s outer g hΔ hg x ((Bindings.contains_map ..).symm.trans hx)

theorem Similar.stands_iff (h : Similar ρ m m') (henv : Points ρ m env env') :
    Stands ss m' env' Δ c ↔ Stands ss m env Δ c :=
  ⟨fun hstands ↦ ⟨hstands.site, (h.mirrors_iff henv).1 hstands.mirrors,
      (h.exact_iff henv).1 hstands.exact_⟩,
    fun hstands ↦ ⟨hstands.site, (h.mirrors_iff henv).2 hstands.mirrors,
      (h.exact_iff henv).2 hstands.exact_⟩⟩

end Machine

/-! ### Runs on machines that release frames -/

namespace Program

variable {guard guard' : Guard}

theorem similar_initial (p : Program) (sink : Sink) (clock : Clock) :
    Similar id ((Machine.initial sink clock).install p.distances)
      ((Machine.initial sink clock).retaining.install p.distances) :=
  Session.Similar.install (tidy_initial sink clock).similar p.distances

/-- What always holds while frames are retained always holds while they are released. -/
theorem always_of_retaining (hguard : guard.Follows guard')
    (h : p.Always fuel (Machine.initial sink clock).retaining guard') :
    p.Always fuel (.initial sink clock) guard := by
  obtain ⟨quiet, hquiet⟩ := (p.run fuel (Machine.initial sink clock).retaining).exists_quiet
  have hfollows := Session.follows_runStatements
    (watched_follows (A := fun _ ↦ False) (B := fun way ↦ way = some quiet) hguard quiet
      (fun _ _ _ _ ↦ rfl) fuel) (p.similar_initial sink clock) p.statements
  rw [h quiet] at hfollows
  exact always_of_quiet (hfollows.quiet hquiet)

theorem always_retaining (hguard : guard.Precedes guard')
    (h : p.Always fuel (.initial sink clock) guard) :
    p.Always fuel (Machine.initial sink clock).retaining guard' := by
  obtain ⟨quiet, hquiet⟩ := (p.run fuel (Machine.initial sink clock)).exists_quiet
  have hfollows := Session.follows_runStatements
    (watched_precedes (A := fun way ↦ way = some quiet) (B := fun _ ↦ False) hguard quiet
      (fun _ _ _ _ ↦ rfl) fuel) (p.similar_initial sink clock) p.statements
  rw [h quiet] at hfollows
  exact always_of_quiet (hfollows.quiet' hquiet)

end Program

end Lox
