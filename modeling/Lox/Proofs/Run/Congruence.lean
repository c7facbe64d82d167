import Lox.Proofs.Run.Alignment

/-!
What becomes of a run when the evaluator of its parts is replaced. Two outcomes are compared up
to stops: they are equal, or the first has stopped in one of the ways `A`, or the second in one
of the ways `B`, where a way to stop is a failure or the end of the fuel. If the evaluators of
the parts compare in this manner on all their moments, so do the wholes
(`compares_evaluate`, `compares_execute`). Two uses: more fuel never changes what a finished run
has answered (`evaluator_compares_of_le`), and a run that is watched goes on as it would
unwatched until the guard stops it.
-/

set_option autoImplicit false

namespace Lox

variable {α β : Type}

/-- The outcomes are equal, unless the first stops in one of the ways `A` or the second in one
of the ways `B`. -/
def Outcome.Compares (A B : Option Failure → Prop) (o o' : Outcome α) : Prop :=
  o = o' ∨ (∃ way, o.stop? = some way ∧ A way) ∨ ∃ way, o'.stop? = some way ∧ B way

/-- Outcomes that compare are equal if neither has stopped in one of the ways allowed for. -/
theorem Outcome.Compares.eq {A B : Option Failure → Prop} {o o' : Outcome α}
    (h : o.Compares A B o') (hA : ∀ way, o.stop? = some way → ¬A way)
    (hB : ∀ way, o'.stop? = some way → ¬B way) : o = o' := by
  rcases h with heq | ⟨way, hway, hstop⟩ | ⟨way, hway, hstop⟩
  · exact heq
  · exact absurd hstop (hA way hway)
  · exact absurd hstop (hB way hway)

def Action.Compares (A B : Option Failure → Prop) (x y : Action α) : Prop :=
  ∀ m, (x m).Compares A B (y m)

/-- The evaluators compare on every node, in every frame and on every machine. -/
structure Evaluator.Compares (A B : Option Failure → Prop) (sub sub' : Evaluator) : Prop where
  evaluate : ∀ e env, (sub.evaluate e env).Compares A B (sub'.evaluate e env)
  execute : ∀ s env, (sub.execute s env).Compares A B (sub'.execute s env)

section

variable {A B : Option Failure → Prop}

namespace Action

theorem compares_refl (x : Action α) : x.Compares A B x := fun _ ↦ Or.inl rfl

theorem compares_bind {x y : Action α} {f g : α → Action β} {m : Machine}
    (h : (x m).Compares A B (y m)) (hf : ∀ a, (f a).Compares A B (g a)) :
    ((x >>= f) m).Compares A B ((y >>= g) m) := by
  rcases h with heq | ⟨way, hway, hA⟩ | ⟨way, hway, hB⟩
  · rw [bind_apply, bind_apply, heq]
    cases y m with
    | outOfFuel => exact Or.inl rfl
    | failed cause m' => exact Or.inl rfl
    | done a m' => exact hf a m'
  · exact Or.inr (Or.inl ⟨way, stop?_bind hway f, hA⟩)
  · exact Or.inr (Or.inr ⟨way, stop?_bind hway g, hB⟩)

theorem compares_releasing {x y : Action α} (frame : FrameId) {m : Machine}
    (h : (x m).Compares A B (y m)) :
    (releasing frame x m).Compares A B (releasing frame y m) := by
  rcases h with heq | ⟨way, hway, hA⟩ | ⟨way, hway, hB⟩
  · exact Or.inl (by simp only [releasing, heq])
  · exact Or.inr (Or.inl ⟨way, (stop?_releasing frame x m).trans hway, hA⟩)
  · exact Or.inr (Or.inr ⟨way, (stop?_releasing frame y m).trans hway, hB⟩)

end Action

/-- To compare is to align two runs, the first at `true`. -/
def Outcome.comparing (A B : Option Failure → Prop) : Alignment Bool where
  Holds os := (os true).Compares A B (os false)
  same _ := Or.inl rfl
  bind h hf := Action.compares_bind h hf
  releasing frame h := Action.compares_releasing frame h

variable {sub sub' : Evaluator}

theorem Evaluator.Compares.aligned (h : sub.Compares A B sub') :
    (Outcome.comparing A B).Evaluators fun i ↦ cond i sub sub' :=
  ⟨fun e env ↦ h.evaluate e env, fun s env ↦ h.execute s env⟩

namespace Evaluation

open Lox.Action

/-- A loop may also be given rounds to spare, if the first one may stop for want of them. -/
theorem compares_rounds {test test' : Action Value} {body body' : Action Flow}
    (htest : test.Compares A B test') (hbody : body.Compares A B body') {fuel fuel' : Nat}
    (hfuel : fuel = fuel' ∨ fuel ≤ fuel' ∧ A none) :
    (rounds test body fuel).Compares A B (rounds test' body' fuel') := by
  induction fuel generalizing fuel' with
  | zero =>
    rcases hfuel with rfl | ⟨-, hA⟩
    · exact compares_refl _
    · exact fun m ↦ Or.inr (Or.inl ⟨none, rfl, hA⟩)
  | succ fuel ih =>
    obtain ⟨fuel', rfl⟩ : ∃ k, fuel' = k + 1 := by
      rcases hfuel with rfl | ⟨hle, -⟩
      · exact ⟨fuel, rfl⟩
      · exact ⟨fuel' - 1, by omega⟩
    have hless : fuel = fuel' ∨ fuel ≤ fuel' ∧ A none := by
      rcases hfuel with heq | ⟨hle, hA⟩
      · exact Or.inl (by omega)
      · exact Or.inr ⟨by omega, hA⟩
    rw [rounds_succ, rounds_succ]
    refine fun m ↦ compares_bind (htest m) fun v ↦ ?_
    split
    · refine fun m ↦ compares_bind (hbody m) fun flow ↦ ?_
      cases flow with
      | normal => exact ih hless
      | returned value => exact compares_refl _
    · exact compares_refl _

theorem compares_evaluate (h : sub.Compares A B sub') (e : Expr) (env : FrameId) :
    (evaluate sub e env).Compares A B (evaluate sub' e env) :=
  Alignment.evaluate h.aligned e env

theorem compares_execute (h : sub.Compares A B sub') {fuel fuel' : Nat}
    (hfuel : fuel = fuel' ∨ fuel ≤ fuel' ∧ A none) (s : Stmt) (env : FrameId) :
    (execute fuel sub s env).Compares A B (execute fuel' sub' s env) :=
  Alignment.execute h.aligned (fun i ↦ cond i fuel fuel') s env fun test body _ ↦
    compares_rounds (h.evaluate test env) (h.execute body env) hfuel

end Evaluation

theorem compares_runStatements (h : sub.Compares A B sub') (ss : List Stmt) :
    (Program.runStatements sub ss).Compares A B (Program.runStatements sub' ss) :=
  Alignment.runStatements h.aligned ss

end

/-- More fuel never changes what a finished run has answered. -/
theorem evaluator_compares_of_le {fuel fuel' : Nat} (hle : fuel ≤ fuel') :
    (evaluator fuel).Compares (fun way ↦ way = none) (fun _ ↦ False) (evaluator fuel') := by
  induction fuel generalizing fuel' with
  | zero =>
    exact ⟨fun e env m ↦ Or.inr (Or.inl ⟨none, rfl, rfl⟩),
      fun s env m ↦ Or.inr (Or.inl ⟨none, rfl, rfl⟩)⟩
  | succ fuel ih =>
    obtain ⟨fuel', rfl⟩ : ∃ k, fuel' = k + 1 := ⟨fuel' - 1, by omega⟩
    have hparts := ih (Nat.le_of_succ_le_succ hle)
    exact ⟨fun e env ↦ Evaluation.compares_evaluate hparts e env,
      fun s env ↦ Evaluation.compares_execute hparts
        (Or.inr ⟨Nat.le_of_succ_le_succ hle, rfl⟩) s env⟩

/-- With any other fuel an expression that has a value runs out of it or has the same value. -/
theorem evaluate_of_done {fuel : Nat} {e : Expr} {env : FrameId} {m m₁ : Machine} {v : Value}
    (h : (evaluator fuel).evaluate e env m = .done v m₁) (fuel' : Nat) :
    (evaluator fuel').evaluate e env m = .outOfFuel ∨
      (evaluator fuel').evaluate e env m = .done v m₁ := by
  rcases Nat.le_total fuel fuel' with hle | hle
  · have hsame := (evaluator_compares_of_le hle).evaluate e env m
    rw [h] at hsame
    exact Or.inr (hsame.eq (fun _ hway ↦ nomatch hway) fun _ _ ↦ not_false).symm
  · rcases (evaluator_compares_of_le hle).evaluate e env m with heq | ⟨way, hway, rfl⟩ | ⟨_, _, hB⟩
    · exact Or.inr (heq.trans h)
    · left
      cases ho : (evaluator fuel').evaluate e env m with
      | outOfFuel => rfl
      | _ => simp [ho, Outcome.stop?] at hway
    · exact hB.elim

end Lox
