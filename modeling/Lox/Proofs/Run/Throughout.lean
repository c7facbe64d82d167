import Lox.Proofs.Run.Watch

/-!
What holds at every moment, put together and taken apart. Guards that hold throughout a stretch of
a run hold there all at once, however many there are (`Throughout.all`), and on each part of it
(`Throughout.first`, `Throughout.rest`). So the moments that the runs of a program come to can
themselves be made a guard, which always holds (`Program.always_moment`), and which nothing leaves
that is set to work at one of them, with whatever fuel (`Program.Moment.throughout`). A guard that
only such moments are known to pass is watched for among them (`throughout_of_among`).
-/

set_option autoImplicit false

namespace Lox

variable {α β : Type} {use : Evaluator → Action α} {fuel : Nat} {m : Machine}
  {guard guard' : Guard}

/-- What is done with an evaluator by the constructs of the language and nothing else. -/
def Uniform (use : Evaluator → Action α) : Prop :=
  ∀ {ι : Type} {L : Alignment ι} {subs : ι → Evaluator}, L.Evaluators subs →
    L.Actions fun i ↦ use (subs i)

theorem Uniform.congruent (h : Uniform use) : Congruent use := fun hsub ↦ h hsub.aligned

/-- The guard holds at every moment of this: to watch for it changes nothing. -/
def Throughout (use : Evaluator → Action α) (fuel : Nat) (m : Machine) (guard : Guard) : Prop :=
  ∀ alarm, use (watched guard alarm fuel) m = use (evaluator fuel) m

/-- The alarm of a run that has found that it returns at the outermost level, which is none of
those of the nodes that it is made of. -/
def Failure.Inward (cause : Failure) : Prop := ∀ text, cause ≠ .internal (.escapedReturn text)

theorem Failure.inward_runtime (line : Nat) (cause : RuntimeError) :
    (Failure.runtime line cause).Inward := by rintro _ ⟨⟩

theorem Failure.inward_fault (fault : Arena.Fault) :
    (Failure.internal (.frame fault)).Inward := by rintro _ ⟨⟩

theorem Failure.inward_sinkFull : Failure.sinkFull.Inward := by rintro _ ⟨⟩

/-- There is an alarm of the inward kind that the outcome does not show. -/
theorem Outcome.exists_unraised (o : Outcome α) :
    ∃ quiet : Failure, quiet.Inward ∧ o.stop? ≠ some (some quiet) := by
  by_cases hfull : o.stop? = some (some .sinkFull)
  · exact ⟨.internal .superNotClass, by rintro _ ⟨⟩, by rw [hfull]; rintro ⟨⟩⟩
  · exact ⟨.sinkFull, Failure.inward_sinkFull, hfull⟩

/-! ### Several guards -/

namespace Throughout

theorem of_quiet (huse : Uniform use) {quiet : Failure}
    (hquiet : (use (watched guard quiet fuel) m).stop? ≠ some (some quiet)) :
    Throughout use fuel m guard :=
  watched_eq_of_quiet huse.congruent hquiet

theorem imp (huse : Uniform use) (h : Throughout use fuel m guard)
    (hguard : ∀ n env m, guard n env m → guard' n env m) : Throughout use fuel m guard' := by
  obtain ⟨quiet, -, hquiet⟩ := (use (evaluator fuel) m).exists_unraised
  have hsame := (huse.congruent (watched_compares_watched hguard quiet quiet fuel) m).eq
    (fun _ _ ↦ not_false) (by
      rintro way hway rfl
      exact hquiet (h quiet ▸ hway))
  exact of_quiet huse (by rw [hsame, h quiet]; exact hquiet)

end Throughout

/-- To align a run with others that are watched: they are the same, unless one of these shows the
alarm. -/
def Outcome.covering (ι : Type) (alarm : Failure) : Alignment (Option ι) where
  Holds os := (∀ i, os (some i) = os none) ∨ ∃ i, (os (some i)).stop? = some (some alarm)
  same _ := Or.inl fun _ ↦ rfl
  bind {α β xs fs m} h hf := by
    rcases h with hsame | ⟨i, hi⟩
    · simp only [Action.bind_apply, hsame]
      cases xs none m with
      | outOfFuel => exact Or.inl fun _ ↦ rfl
      | failed cause m' => exact Or.inl fun _ ↦ rfl
      | done a m' => exact hf a m'
    · exact Or.inr ⟨i, Action.stop?_bind hi (fs (some i))⟩
  releasing {α xs m} frame h := by
    rcases h with hsame | ⟨i, hi⟩
    · exact Or.inl fun i ↦ by simp only [Action.releasing, hsame]
    · exact Or.inr ⟨i, (Action.stop?_releasing frame (xs (some i)) m).trans hi⟩

section

variable {ι : Type} {guards : ι → Guard}

/-- Where one watches for all guards at once, some single one is not passed when the alarm is
raised. -/
theorem watched_covering [Nonempty ι] (guards : ι → Guard) (alarm : Failure) (fuel : Nat) :
    (Outcome.covering ι alarm).Evaluators fun i? ↦ match i? with
      | none => watched (fun n env m ↦ ∀ i, guards i n env m) alarm fuel
      | some i => watched (guards i) alarm fuel := by
  induction fuel with
  | zero => exact ⟨fun e env m ↦ Or.inl fun _ ↦ rfl, fun s env m ↦ Or.inl fun _ ↦ rfl⟩
  | succ fuel ih =>
    refine ⟨fun e env m ↦ ?_, fun s env m ↦ ?_⟩
    · by_cases hall : ∀ i, guards i (.expr e) env m
      · have hparts := Alignment.evaluate ih e env m
        simpa only [watched, Outcome.covering, hall, if_true, implies_true] using hparts
      · obtain ⟨i, hi⟩ := Classical.not_forall.1 hall
        exact Or.inr ⟨i, by simp only [watched, if_neg hi, Outcome.stop?]⟩
    · by_cases hall : ∀ i, guards i (.stmt s) env m
      · have hparts := Alignment.execute ih (fun _ ↦ fuel) s env
          (fun test body _ ↦ Alignment.rounds (ih.evaluate test env) (ih.execute body env) fuel) m
        simpa only [watched, Outcome.covering, hall, if_true, implies_true] using hparts
      · obtain ⟨i, hi⟩ := Classical.not_forall.1 hall
        exact Or.inr ⟨i, by simp only [watched, if_neg hi, Outcome.stop?]⟩

theorem Throughout.all (huse : Uniform use) (h : ∀ i, Throughout use fuel m (guards i)) :
    Throughout use fuel m fun n env m ↦ ∀ i, guards i n env m := by
  by_cases hsome : Nonempty ι
  · obtain ⟨quiet, -, hquiet⟩ := (use (evaluator fuel) m).exists_unraised
    rcases huse (watched_covering guards quiet fuel) m with hsame | ⟨i, hi⟩
    · obtain ⟨i⟩ := hsome
      have hplain := (hsame i).symm.trans (h i quiet)
      exact .of_quiet huse fun hstop ↦ hquiet (hplain ▸ hstop)
    · have hplain := congrArg Outcome.stop? (h i quiet)
      exact absurd (hplain.symm.trans hi) hquiet
  · have hnone (i : ι) : False := hsome ⟨i⟩
    have htrue : (fun n env m ↦ ∀ i, guards i n env m) = fun _ _ _ ↦ True :=
      funext fun n ↦ funext fun env ↦ funext fun m ↦ eq_true fun i ↦ (hnone i).elim
    intro alarm
    rw [htrue, watched_true]

end

/-! ### Parts of a stretch -/

section

variable {pre : Evaluator → Action α} {next : α → Evaluator → Action β}

theorem Throughout.first (hpre : Uniform pre)
    (h : Throughout (fun sub ↦ pre sub >>= fun a ↦ next a sub) fuel m guard) :
    Throughout pre fuel m guard := by
  obtain ⟨quiet, -, hquiet⟩ :=
    ((pre (evaluator fuel) >>= fun a ↦ next a (evaluator fuel)) m).exists_unraised
  refine .of_quiet hpre fun hstop : (pre (watched guard quiet fuel) m).stop? = _ ↦ hquiet ?_
  exact (congrArg Outcome.stop? (h quiet)).symm.trans
    (Action.stop?_bind hstop fun a ↦ next a (watched guard quiet fuel))

theorem Throughout.rest (hpre : Uniform pre)
    (h : Throughout (fun sub ↦ pre sub >>= fun a ↦ next a sub) fuel m guard) {a : α}
    {m₁ : Machine} (hdone : pre (evaluator fuel) m = .done a m₁) :
    Throughout (next a) fuel m₁ guard := by
  intro alarm
  have hwhole := h alarm
  simp only [Action.bind_apply, h.first hpre alarm, hdone] at hwhole
  exact hwhole

/-- The parts of a stretch make up the whole. -/
theorem Throughout.bind (h : Throughout pre fuel m guard)
    (hnext : ∀ a m₁, pre (evaluator fuel) m = .done a m₁ → Throughout (next a) fuel m₁ guard) :
    Throughout (fun sub ↦ pre sub >>= fun a ↦ next a sub) fuel m guard := by
  intro alarm
  simp only [Action.bind_apply, h alarm]
  cases hx : pre (evaluator fuel) m with
  | outOfFuel => rfl
  | failed cause m₁ => rfl
  | done a m₁ => exact hnext a m₁ hx alarm

end

/-! ### Among certain moments -/

open Classical in
/-- The evaluator that fails with `outside` at a moment that is not among the expected ones, and
with `alarm` at one of these that does not pass the guard. -/
noncomputable def watchedAmong (among guard : Guard) (outside alarm : Failure) : Nat → Evaluator
  | 0 => evaluator 0
  | fuel + 1 =>
    ⟨fun e env m ↦
      if among (.expr e) env m then
        if guard (.expr e) env m then
          Evaluation.evaluate (watchedAmong among guard outside alarm fuel) e env m
        else .failed alarm m
      else .failed outside m,
    fun s env m ↦
      if among (.stmt s) env m then
        if guard (.stmt s) env m then
          Evaluation.execute fuel (watchedAmong among guard outside alarm fuel) s env m
        else .failed alarm m
      else .failed outside m⟩

section

variable {among : Guard} {outside alarm : Failure}

theorem watchedAmong_compares_among (fuel : Nat) :
    (watchedAmong among guard outside alarm fuel).Compares (fun way ↦ way = some alarm)
      (fun _ ↦ False) (watched among outside fuel) := by
  induction fuel with
  | zero => exact ⟨fun e env ↦ Action.compares_refl _, fun s env ↦ Action.compares_refl _⟩
  | succ fuel ih =>
    refine ⟨fun e env m ↦ ?_, fun s env m ↦ ?_⟩
    · simp only [watchedAmong, watched]
      split
      · split
        · exact Evaluation.compares_evaluate ih e env m
        · exact Or.inr (Or.inl ⟨some alarm, rfl, rfl⟩)
      · exact Or.inl rfl
    · simp only [watchedAmong, watched]
      split
      · split
        · exact Evaluation.compares_execute ih (Or.inl rfl) s env m
        · exact Or.inr (Or.inl ⟨some alarm, rfl, rfl⟩)
      · exact Or.inl rfl

theorem watchedAmong_compares_watched (fuel : Nat) :
    (watchedAmong among guard outside alarm fuel).Compares (fun way ↦ way = some outside)
      (fun _ ↦ False) (watched guard alarm fuel) := by
  induction fuel with
  | zero => exact ⟨fun e env ↦ Action.compares_refl _, fun s env ↦ Action.compares_refl _⟩
  | succ fuel ih =>
    refine ⟨fun e env m ↦ ?_, fun s env m ↦ ?_⟩
    · simp only [watchedAmong, watched]
      split
      · split
        · exact Evaluation.compares_evaluate ih e env m
        · exact Or.inl rfl
      · exact Or.inr (Or.inl ⟨some outside, rfl, rfl⟩)
    · simp only [watchedAmong, watched]
      split
      · split
        · exact Evaluation.compares_execute ih (Or.inl rfl) s env m
        · exact Or.inl rfl
      · exact Or.inr (Or.inl ⟨some outside, rfl, rfl⟩)

/-- Among moments that there are no others than, a guard that is seen not to fail holds. -/
theorem Throughout.of_among (huse : Uniform use) (hamong : Throughout use fuel m among)
    (hquiet : ∀ outside : Failure, outside.Inward →
      (use (watchedAmong among guard outside alarm fuel) m).stop? ≠ some (some alarm)) :
    Throughout use fuel m guard ∧ ∃ outside : Failure, outside.Inward ∧
      use (watchedAmong among guard outside alarm fuel) m = use (evaluator fuel) m := by
  obtain ⟨outside, hinward, hunraised⟩ := (use (evaluator fuel) m).exists_unraised
  have hnever : ∀ way, (use (watchedAmong among guard outside alarm fuel) m).stop? = some way →
      way ≠ some alarm := by
    rintro way hway rfl
    exact hquiet outside hinward hway
  have hplain : use (watchedAmong among guard outside alarm fuel) m = use (evaluator fuel) m :=
    ((huse.congruent (watchedAmong_compares_among fuel) m).eq hnever fun _ _ ↦ not_false).trans
      (hamong outside)
  have hwatched : use (watchedAmong among guard outside alarm fuel) m =
      use (watched guard alarm fuel) m := by
    refine (huse.congruent (watchedAmong_compares_watched fuel) m).eq (fun way hway ↦ ?_)
      fun _ _ ↦ not_false
    rintro rfl
    exact hunraised (hplain ▸ hway)
  exact ⟨.of_quiet huse (hwatched ▸ hquiet outside hinward), outside, hinward, hplain⟩

end

/-! ### The moments of a program -/

/-- More fuel never changes what a finished run has answered, watched or not. -/
theorem watched_compares_of_le (guard : Guard) (alarm : Failure) {fuel fuel' : Nat}
    (hle : fuel ≤ fuel') :
    (watched guard alarm fuel).Compares (fun way ↦ way = none) (fun _ ↦ False)
      (watched guard alarm fuel') := by
  induction fuel generalizing fuel' with
  | zero =>
    exact ⟨fun e env m ↦ Or.inr (Or.inl ⟨none, rfl, rfl⟩),
      fun s env m ↦ Or.inr (Or.inl ⟨none, rfl, rfl⟩)⟩
  | succ fuel ih =>
    obtain ⟨fuel', rfl⟩ : ∃ k, fuel' = k + 1 := ⟨fuel' - 1, by omega⟩
    have hparts := ih (Nat.le_of_succ_le_succ hle)
    refine ⟨fun e env m ↦ ?_, fun s env m ↦ ?_⟩
    · by_cases hpass : guard (.expr e) env m
      · simp only [watched, if_pos hpass]
        exact Evaluation.compares_evaluate hparts e env m
      · simp only [watched, if_neg hpass]
        exact Or.inl rfl
    · by_cases hpass : guard (.stmt s) env m
      · simp only [watched, if_pos hpass]
        exact Evaluation.compares_execute hparts
          (Or.inr ⟨Nat.le_of_succ_le_succ hle, rfl⟩) s env m
      · simp only [watched, if_neg hpass]
        exact Or.inl rfl

/-- This very moment. -/
def Node.At (n : Node) (env : FrameId) (m : Machine) : Guard :=
  fun n' env' m' ↦ n' = n ∧ env' = env ∧ m' = m

/-- The moments that the runs of a program come to from a machine, given fuel enough. -/
def Program.Moment (p : Program) (m₀ : Machine) : Guard := fun n env m ↦
  ∃ fuel, p.Reaches fuel m₀ (n.At env m)

namespace Program

variable {p : Program} {m₀ : Machine}

theorem uniform_runStatements (ss : List Stmt) :
    Uniform fun sub ↦ Program.runStatements sub ss :=
  fun hsubs ↦ Alignment.runStatements hsubs ss

theorem always_iff : p.Always fuel m₀ guard ↔ Throughout
    (fun sub ↦ Program.runStatements sub p.statements) fuel (m₀.install p.distances) guard :=
  Iff.rfl

theorem always_forall {ι : Type} {guards : ι → Guard} (h : ∀ i, p.Always fuel m₀ (guards i)) :
    p.Always fuel m₀ fun n env m ↦ ∀ i, guards i n env m :=
  always_iff.2 (.all (uniform_runStatements p.statements) fun i ↦ always_iff.1 (h i))

theorem Always.imp (h : p.Always fuel m₀ guard)
    (hguard : ∀ n env m, guard n env m → guard' n env m) : p.Always fuel m₀ guard' :=
  always_iff.2 (.imp (uniform_runStatements p.statements) (always_iff.1 h) hguard)

/-- What is no moment of the program is not come to. -/
theorem always_not_of_not_moment {n : Node} {env : FrameId} (h : ¬p.Moment m₀ n env m)
    (fuel : Nat) : p.Always fuel m₀ fun n' env' m' ↦ ¬n.At env m n' env' m' :=
  Classical.not_not.1 fun hreaches ↦ h ⟨fuel, hreaches⟩

theorem always_moment (p : Program) (m₀ : Machine) (fuel : Nat) :
    p.Always fuel m₀ (p.Moment m₀) := by
  have hnever : p.Always fuel m₀ fun n env m ↦
      ∀ x : {x : Node × FrameId × Machine // ¬p.Moment m₀ x.1 x.2.1 x.2.2},
        ¬x.1.1.At x.1.2.1 x.1.2.2 n env m :=
    always_forall fun x ↦ always_not_of_not_moment x.2 fuel
  refine Always.imp hnever fun n env m hnot ↦ Classical.not_not.1 fun hmoment ↦ ?_
  exact hnot ⟨(n, env, m), hmoment⟩ ⟨rfl, rfl, rfl⟩

/-- What always holds, holds at each moment. -/
theorem Moment.of_always {n : Node} {env : FrameId} (hmoment : p.Moment m₀ n env m)
    (h : ∀ fuel, p.Always fuel m₀ guard) : guard n env m := by
  obtain ⟨fuel, hreaches⟩ := hmoment
  refine Classical.not_not.1 fun hfails ↦ hreaches ?_
  refine (h fuel).imp fun n' env' m' hholds hat ↦ ?_
  obtain ⟨rfl, rfl, rfl⟩ := hat
  exact hfails hholds

end Program

/-- If the guard fails within an expression, a run that comes to the expression, with so much fuel
to spare, has the alarm raised there. -/
theorem watched_compares_within {e : Expr} {env : FrameId} {alarm alarm' : Failure}
    (hfails : (Evaluation.evaluate (watched guard alarm' fuel) e env m).stop? = some (some alarm'))
    (fuel' : Nat) :
    (watched (fun n' env' m' ↦ ¬(Node.expr e).At env m n' env' m') alarm fuel').Compares
      (fun way ↦ way = none) (fun way ↦ way = some alarm')
      (watched guard alarm' (fuel' + fuel)) := by
  induction fuel' with
  | zero =>
    exact ⟨fun e env m ↦ Or.inr (Or.inl ⟨none, rfl, rfl⟩),
      fun s env m ↦ Or.inr (Or.inl ⟨none, rfl, rfl⟩)⟩
  | succ fuel' ih =>
    rw [Nat.succ_add]
    refine ⟨fun e₁ env₁ m₁ ↦ ?_, fun s env₁ m₁ ↦ ?_⟩
    · by_cases hpass : guard (.expr e₁) env₁ m₁
      · simp only [watched, if_pos hpass]
        by_cases hat : (Node.expr e).At env m (.expr e₁) env₁ m₁
        · obtain ⟨he, rfl, rfl⟩ := hat
          cases he
          refine Or.inr (Or.inr ⟨some alarm', ?_, rfl⟩)
          have hlonger := Evaluation.compares_evaluate
            (watched_compares_of_le guard alarm' (Nat.le_add_left fuel fuel')) e env₁ m₁
          rw [← hlonger.eq (fun way hway hnone ↦ ?_) fun _ _ ↦ not_false]
          · exact hfails
          · rw [hfails, hnone] at hway
            cases hway
        · rw [if_pos hat]
          exact Evaluation.compares_evaluate ih e₁ env₁ m₁
      · simp only [watched, if_neg hpass]
        exact Or.inr (Or.inr ⟨some alarm', rfl, rfl⟩)
    · by_cases hpass : guard (.stmt s) env₁ m₁
      · have hat : ¬(Node.expr e).At env m (.stmt s) env₁ m₁ := by rintro ⟨⟨⟩, -⟩
        simp only [watched, if_pos hpass, if_pos hat]
        exact Evaluation.compares_execute ih (Or.inr ⟨Nat.le_add_right .., rfl⟩) s env₁ m₁
      · simp only [watched, if_neg hpass]
        exact Or.inr (Or.inr ⟨some alarm', rfl, rfl⟩)

theorem uniform_evaluate (e : Expr) (env : FrameId) :
    Uniform fun sub ↦ Evaluation.evaluate sub e env :=
  fun hsubs ↦ Alignment.evaluate hsubs e env

namespace Program

variable {p : Program} {m₀ : Machine}

/-- What is set to work at a moment of the program comes to such moments only. -/
theorem Moment.throughout {e : Expr} {env : FrameId} (h : p.Moment m₀ (.expr e) env m)
    (fuel : Nat) :
    Throughout (fun sub ↦ Evaluation.evaluate sub e env) fuel m (p.Moment m₀) := by
  obtain ⟨fuel₀, hreaches⟩ := h
  have hnever (x : {x : Node × FrameId × Machine // ¬p.Moment m₀ x.1 x.2.1 x.2.2}) :
      Throughout (fun sub ↦ Evaluation.evaluate sub e env) fuel m fun n' env' m' ↦
        ¬x.1.1.At x.1.2.1 x.1.2.2 n' env' m' := by
    obtain ⟨quiet, -, hquiet⟩ := (p.run (fuel₀ + fuel) m₀).exists_unraised
    have hplain := always_not_of_not_moment x.2 (fuel₀ + fuel) quiet
    refine .of_quiet (uniform_evaluate e env) fun hfails :
      (Evaluation.evaluate (watched _ quiet fuel) e env m).stop? = _ ↦ hreaches ?_
    refine always_of_quiet fun hstop :
      (Program.runStatements (watched _ quiet fuel₀) _ _).stop? = _ ↦ ?_
    rcases compares_runStatements (watched_compares_within hfails fuel₀) p.statements
      (m₀.install p.distances) with heq | ⟨way, hway, hnone⟩ | ⟨way, hway, hraised⟩
    · rw [heq, hplain] at hstop
      exact hquiet hstop
    · rw [hstop, hnone] at hway
      cases hway
    · rw [hplain, hraised] at hway
      exact hquiet hway
  refine Throughout.imp (uniform_evaluate e env) (Throughout.all (uniform_evaluate e env) hnever)
    fun n' env' m' hnot ↦ Classical.not_not.1 fun hmoment ↦ ?_
  exact hnot ⟨(n', env', m'), hmoment⟩ ⟨rfl, rfl, rfl⟩

end Program

end Lox
