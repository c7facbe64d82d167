import Lox.Proofs.Reclamation.Simulation
import Lox.Proofs.Run.Watch

/-!
Moments of runs on similar machines. Guards that cannot tell similar machines apart stop both
runs at the same moment, so what always holds on one machine always holds on the other. The first
use of this: at every moment of a run nothing that can be referred to has been released, and
nothing will be that the construct at hand may still need.
-/

set_option autoImplicit false

namespace Lox

open Referring Machine

variable {ρ : FrameId → FrameId} {m m' : Machine} {env env' : FrameId} {α : Type} [Referring α]
  {A B : Option Failure → Prop}

/-- A guard that holds on a machine whenever `guard'` holds on a similar one. -/
def Guard.Follows (guard guard' : Guard) : Prop :=
  ∀ {ρ m m' env env'} (n : Node), Similar ρ m m' → Points ρ m env env' →
    guard' n env' m' → guard n env m

/-- A guard that goes over to similar machines. -/
def Guard.Precedes (guard guard' : Guard) : Prop :=
  ∀ {ρ m m' env env'} (n : Node), Similar ρ m m' → Points ρ m env env' →
    guard n env m → guard' n env' m'

/-- Watched runs follow each other, if at similar moments both watches let the node pass, or one of
them raises an alarm that is allowed for. -/
theorem watched_follows_of {guard guard' : Guard} {alarm alarm' : Failure}
    (hguards : ∀ {ρ m m' env env'} (n : Node), Similar ρ m m' → Points ρ m env env' →
      guard n env m ∧ guard' n env' m' ∨ ¬guard n env m ∧ A (some alarm) ∨
        ¬guard' n env' m' ∧ B (some alarm')) (fuel : Nat) :
    (watched guard alarm fuel).Follows A B (watched guard' alarm' fuel) := by
  induction fuel with
  | zero => exact follows_evaluator 0
  | succ fuel ih =>
    refine ⟨fun {ρ m m'} e {env env'} h henv ↦ ?_, fun {ρ m m'} s {env env'} h henv ↦ ?_⟩
    · simp only [watched]
      rcases hguards (.expr e) h henv with ⟨hpass, hpass'⟩ | ⟨hstop, hA⟩ | ⟨hstop, hB⟩
      · rw [if_pos hpass, if_pos hpass']
        exact Evaluation.follows_evaluate ih h henv e
      · rw [if_neg hstop]
        exact .left rfl hA
      · rw [if_neg hstop]
        exact .right rfl hB
    · simp only [watched]
      rcases hguards (.stmt s) h henv with ⟨hpass, hpass'⟩ | ⟨hstop, hA⟩ | ⟨hstop, hB⟩
      · rw [if_pos hpass, if_pos hpass']
        exact Evaluation.follows_execute ih h henv fuel s
      · rw [if_neg hstop]
        exact .left rfl hA
      · rw [if_neg hstop]
        exact .right rfl hB

/-- While the second watch raises no alarm the first one does not either. -/
theorem watched_follows {guard guard' : Guard} (hguard : guard.Follows guard')
    (alarm : Failure) {alarm' : Failure} (hB : ∀ n env m, ¬guard' n env m → B (some alarm'))
    (fuel : Nat) : (watched guard alarm fuel).Follows A B (watched guard' alarm' fuel) := by
  refine watched_follows_of (fun {ρ m m' env env'} n h henv ↦ ?_) fuel
  by_cases hpass : guard' n env' m'
  · exact Or.inl ⟨hguard n h henv hpass, hpass⟩
  · exact Or.inr (Or.inr ⟨hpass, hB n env' m' hpass⟩)

/-- While the first watch raises no alarm the second one does not either. -/
theorem watched_precedes {guard guard' : Guard} (hguard : guard.Precedes guard')
    {alarm : Failure} (alarm' : Failure) (hA : ∀ n env m, ¬guard n env m → A (some alarm))
    (fuel : Nat) : (watched guard alarm fuel).Follows A B (watched guard' alarm' fuel) := by
  refine watched_follows_of (fun {ρ m m' env env'} n h henv ↦ ?_) fuel
  by_cases hpass : guard n env m
  · exact Or.inl ⟨hpass, hguard n h henv hpass⟩
  · exact Or.inr (Or.inl ⟨hpass, hA n env m hpass⟩)

omit [Referring α] in
/-- There is always an alarm that an outcome cannot be taken for. -/
theorem Outcome.exists_quiet (o : Outcome α) : ∃ quiet : Failure, ∀ cause m,
    o = .failed cause m → cause.unslotted ≠ quiet.unslotted := by
  cases o with
  | failed cause m =>
    by_cases hsink : cause.unslotted = Failure.sinkFull
    · refine ⟨.internal .superNotClass, fun cause' m' h ↦ ?_⟩
      cases h
      rw [hsink]
      exact fun h ↦ nomatch h
    · refine ⟨.sinkFull, fun cause' m' h ↦ ?_⟩
      cases h
      exact hsink
  | _ => exact ⟨.sinkFull, fun _ _ h ↦ nomatch h⟩

omit [Referring α] in
theorem Outcome.stop?_eq_some_some {o : Outcome α} {cause : Failure}
    (h : o.stop? = some (some cause)) : ∃ m, o = .failed cause m := by
  cases o with
  | failed cause' m =>
    cases h
    exact ⟨m, rfl⟩
  | _ => simp [Outcome.stop?] at h

/-- An alarm that the second outcome cannot be taken for has not stopped the first one. -/
theorem Outcome.Follows.quiet {o o' : Outcome α} {quiet : Failure}
    (h : o.Follows (fun _ ↦ False) (fun way ↦ way = some quiet) ρ m o')
    (hquiet : ∀ cause m, o' = .failed cause m → cause.unslotted ≠ quiet.unslotted) :
    o.stop? ≠ some (some quiet) := by
  intro hstop
  cases h with
  | outOfFuel => simp [Outcome.stop?] at hstop
  | done => simp [Outcome.stop?] at hstop
  | failed hcause hlead hsim =>
    cases hstop
    exact hquiet _ _ rfl hcause.symm
  | left hway hallowed => exact hallowed
  | right hway hallowed =>
    subst hallowed
    obtain ⟨m', rfl⟩ := stop?_eq_some_some hway
    exact hquiet _ _ rfl rfl

/-- An alarm that the first outcome cannot be taken for has not stopped the second one. -/
theorem Outcome.Follows.quiet' {o o' : Outcome α} {quiet : Failure}
    (h : o.Follows (fun way ↦ way = some quiet) (fun _ ↦ False) ρ m o')
    (hquiet : ∀ cause m, o = .failed cause m → cause.unslotted ≠ quiet.unslotted) :
    o'.stop? ≠ some (some quiet) := by
  intro hstop
  cases h with
  | outOfFuel => simp [Outcome.stop?] at hstop
  | done => simp [Outcome.stop?] at hstop
  | failed hcause hlead hsim =>
    cases hstop
    exact hquiet _ _ rfl hcause
  | left hway hallowed =>
    subst hallowed
    obtain ⟨m', rfl⟩ := stop?_eq_some_some hway
    exact hquiet _ _ rfl rfl
  | right hway hallowed => exact hallowed

/-! ### Nothing that is needed is released -/

/-- What the evaluator makes of a node. -/
def Node.run (fuel : Nat) : Node → FrameId → Machine → Outcome Flow
  | .expr e, env, m => ((evaluator fuel).evaluate e env >>= fun _ ↦ Pure.pure Flow.normal) m
  | .stmt s, env, m => (evaluator fuel).execute s env m

/-- The machine that an outcome has come to. -/
def Outcome.machine? : Outcome α → Option Machine
  | .outOfFuel => none
  | .failed _ m => some m
  | .done _ m => some m

/-- However the node ends, the frames that are live before it are live after it: the same frames,
for they lie where they lay and stand for what they stood for. -/
def Node.Spares (n : Node) (env : FrameId) (m : Machine) : Prop :=
  ∀ fuel m₁, (n.run fuel env m).machine? = some m₁ →
    m.arena.Continues m₁.arena ∧ ∀ k, m.arena.Live k → m₁.origins[k.slot]? = m.origins[k.slot]?

/-- A moment at which all frames are there that the machine or the node at hand refers to, and at
which the frames that are there will stay until the node has been dealt with. -/
structure Secure (n : Node) (env : FrameId) (m : Machine) : Prop where
  tidy : m.Tidy
  live : m.arena.Live env
  spares : n.Spares env m

/-- A tidy machine, and the same one from now on retaining all frames. -/
theorem Machine.Tidy.similar (h : m.Tidy) :
    Similar id m { m with arena := ⟨m.arena.slots, [], true⟩ } where
  tidy := h
  retains := rfl
  full := rfl
  noted := h.noted
  apart _ _ _ _ heq := heq
  globals := rfl
  frames k f hk := ⟨f.captured, by
    obtain ⟨values, enclosing, captured⟩ := f
    have hvalues : rename id values = values := rename_id values
    rw [hvalues, Option.map_id]
    exact hk⟩
  origins _ _ := rfl
  fields := by
    rw [funext rename_id]
    exact (Array.map_id' _).symm
  distances := rfl
  nextId := rfl
  sink := rfl
  clock := rfl

theorem Outcome.Follows.leads {o o' : Outcome α}
    (h : o.Follows (fun _ ↦ False) (fun _ ↦ False) ρ m o') {m₁ : Machine}
    (hm : o.machine? = some m₁) : ∃ ρ₁ m₁', o'.machine? = some m₁' ∧ Leads ρ m ρ₁ m₁ ∧
      Similar ρ₁ m₁ m₁' := by
  cases h with
  | outOfFuel => cases hm
  | failed hcause hlead hsim =>
    cases hm
    exact ⟨_, _, rfl, hlead, hsim⟩
  | done hlead hsim ha =>
    cases hm
    exact ⟨_, _, rfl, hlead, hsim⟩
  | left hstop hallowed => exact hallowed.elim
  | right hstop hallowed => exact hallowed.elim

theorem Node.follows_run (n : Node) (fuel : Nat) (h : Similar ρ m m')
    (henv : Points ρ m env env') : (n.run fuel env m).Follows A B ρ m (n.run fuel env' m') := by
  have hsub : (evaluator fuel).Follows A B (evaluator fuel) := follows_evaluator fuel
  cases n with
  | expr e =>
    exact Action.follows_bind (hsub.evaluate e h henv) fun ρ₁ m₁ m₁' _ _ _ hsim _ ↦
      Action.follows_pure hsim ⟨trivial, rfl⟩
  | stmt s => exact hsub.execute s h henv

theorem secure_of_tidy (h : m.Tidy) (n : Node) (henv : m.arena.Live env) : Secure n env m := by
  refine ⟨h, henv, fun fuel m₁ hm ↦ ?_⟩
  obtain ⟨ρ₁, m₁', -, hlead, -⟩ := (n.follows_run fuel h.similar ⟨henv, rfl⟩).leads hm
  exact ⟨hlead.continues, hlead.noted⟩

theorem secure_follows : Guard.Follows Secure fun _ _ _ ↦ True :=
  fun n h henv _ ↦ secure_of_tidy h.tidy n henv.live

end Lox
