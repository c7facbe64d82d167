import Lox.Proofs.Run.Congruence

/-!
Every moment of a run, made into something that can be spoken of. A moment is a node of the tree
that the evaluator sets to work on, with the frame it works in and the machine it starts from. A
watched run raises an alarm, in place of working on, at the first moment that does not pass a
guard; a run at all of whose moments the guard holds is one that no watch changes, whatever its
alarm (`Program.Always`). Such a statement is proved by watching with one alarm that the run is
known not to fail with (`Program.always_of_quiet`).
-/

set_option autoImplicit false

namespace Lox

/-- What the evaluator is set to work on. -/
inductive Node
  | expr (e : Expr)
  | stmt (s : Stmt)

/-- What is asked of a moment. -/
abbrev Guard := Node → FrameId → Machine → Prop

open Classical in
/-- The evaluator that fails with `alarm` at a moment that does not pass the guard. -/
noncomputable def watched (guard : Guard) (alarm : Failure) : Nat → Evaluator
  | 0 => evaluator 0
  | fuel + 1 =>
    ⟨fun e env m ↦
      if guard (.expr e) env m then Evaluation.evaluate (watched guard alarm fuel) e env m
      else .failed alarm m,
    fun s env m ↦
      if guard (.stmt s) env m then Evaluation.execute fuel (watched guard alarm fuel) s env m
      else .failed alarm m⟩

theorem watched_true (alarm : Failure) (fuel : Nat) :
    watched (fun _ _ _ ↦ True) alarm fuel = evaluator fuel := by
  induction fuel with
  | zero => rfl
  | succ fuel ih => simp only [watched, evaluator, if_true, ih]

/-- A watched run goes on like the unwatched one until it raises the alarm. -/
theorem watched_compares (guard : Guard) (alarm : Failure) (fuel : Nat) :
    (watched guard alarm fuel).Compares (fun way ↦ way = some alarm) (fun _ ↦ False)
      (evaluator fuel) := by
  induction fuel with
  | zero => exact ⟨fun e env ↦ Action.compares_refl _, fun s env ↦ Action.compares_refl _⟩
  | succ fuel ih =>
    refine ⟨fun e env m ↦ ?_, fun s env m ↦ ?_⟩
    · by_cases hguard : guard (.expr e) env m
      · simp only [watched, if_pos hguard]
        exact Evaluation.compares_evaluate ih e env m
      · simp only [watched, if_neg hguard]
        exact Or.inr (Or.inl ⟨some alarm, rfl, rfl⟩)
    · by_cases hguard : guard (.stmt s) env m
      · simp only [watched, if_pos hguard]
        exact Evaluation.compares_execute ih (Or.inl rfl) s env m
      · simp only [watched, if_neg hguard]
        exact Or.inr (Or.inl ⟨some alarm, rfl, rfl⟩)

/-- Whatever does not pass the weaker guard does not pass the stronger one, so the alarm is raised
no later there. -/
theorem watched_compares_watched {guard guard' : Guard}
    (hguard : ∀ n env m, guard' n env m → guard n env m) (alarm alarm' : Failure) (fuel : Nat) :
    (watched guard alarm fuel).Compares (fun _ ↦ False) (fun way ↦ way = some alarm')
      (watched guard' alarm' fuel) := by
  induction fuel with
  | zero => exact ⟨fun e env ↦ Action.compares_refl _, fun s env ↦ Action.compares_refl _⟩
  | succ fuel ih =>
    refine ⟨fun e env m ↦ ?_, fun s env m ↦ ?_⟩
    · by_cases hpass : guard' (.expr e) env m
      · simp only [watched, if_pos hpass, if_pos (hguard _ _ _ hpass)]
        exact Evaluation.compares_evaluate ih e env m
      · simp only [watched, if_neg hpass]
        exact Or.inr (Or.inr ⟨some alarm', rfl, rfl⟩)
    · by_cases hpass : guard' (.stmt s) env m
      · simp only [watched, if_pos hpass, if_pos (hguard _ _ _ hpass)]
        exact Evaluation.compares_execute ih (Or.inl rfl) s env m
      · simp only [watched, if_neg hpass]
        exact Or.inr (Or.inr ⟨some alarm', rfl, rfl⟩)

/-- What is done with an evaluator, and depends on nothing but its outcomes. -/
def Congruent {α : Type} (use : Evaluator → Action α) : Prop :=
  ∀ {A B : Option Failure → Prop} {sub sub' : Evaluator}, sub.Compares A B sub' →
    (use sub).Compares A B (use sub')

/-- A guard that some alarm is not raised for makes no difference to a run, whatever the alarm. -/
theorem watched_eq_of_quiet {α : Type} {use : Evaluator → Action α} (huse : Congruent use)
    {guard : Guard} {quiet : Failure} {fuel : Nat} {m : Machine}
    (hquiet : (use (watched guard quiet fuel) m).stop? ≠ some (some quiet)) (alarm : Failure) :
    use (watched guard alarm fuel) m = use (evaluator fuel) m := by
  have hnever : ∀ way, (use (watched guard quiet fuel) m).stop? = some way → way ≠ some quiet := by
    rintro way hway rfl
    exact hquiet hway
  have hsame := (huse (watched_compares_watched (fun _ _ _ ↦ id) alarm quiet fuel) m).eq
    (fun way _ ↦ not_false) hnever
  have hplain := (huse (watched_compares guard quiet fuel) m).eq hnever fun way _ ↦ not_false
  exact hsame.trans hplain

theorem Outcome.Ends.quiet {α : Type} {o : Outcome α} {good : α → Machine → Prop}
    {bad : Failure → Machine → Prop} (h : o.Ends good bad) {quiet : Failure}
    (hquiet : ∀ m, ¬bad quiet m) : o.stop? ≠ some (some quiet) := by
  intro hstop
  cases o with
  | outOfFuel => simp [Outcome.stop?] at hstop
  | done a m => simp [Outcome.stop?] at hstop
  | failed cause m =>
    have hcause : cause = quiet := by simpa [Outcome.stop?] using hstop
    exact hquiet m (hcause ▸ h)

/-- The guard holds at every moment of the run: to watch for it changes nothing. -/
def Program.Always (p : Program) (fuel : Nat) (m : Machine) (guard : Guard) : Prop :=
  ∀ alarm, Program.runStatements (watched guard alarm fuel) p.statements
    (m.install p.distances) = p.run fuel m

/-- The run comes to a moment of this kind. -/
def Program.Reaches (p : Program) (fuel : Nat) (m : Machine) (moment : Guard) : Prop :=
  ¬p.Always fuel m fun node env m ↦ ¬moment node env m

theorem congruent_runStatements (ss : List Stmt) :
    Congruent fun sub ↦ Program.runStatements sub ss :=
  fun hsub ↦ compares_runStatements hsub ss

theorem Program.always_of_quiet {p : Program} {fuel : Nat} {m : Machine} {guard : Guard}
    {quiet : Failure}
    (hquiet : (Program.runStatements (watched guard quiet fuel) p.statements
      (m.install p.distances)).stop? ≠ some (some quiet)) : p.Always fuel m guard :=
  watched_eq_of_quiet (congruent_runStatements p.statements) hquiet

end Lox
