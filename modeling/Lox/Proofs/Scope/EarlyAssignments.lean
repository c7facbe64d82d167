import Lox.Proofs.Scope.Runs

/-!
The one way for an accepted program to end with an internal fault. While the initial value of a
local variable is worked out the variable has its scope but not yet a place in the frame. To read
it there is an error of resolution; to assign to it is not, and the assignment, once it has its
value, finds no place to put it. A run ends with an internal fault exactly if it comes to such an
assignment, so that any other accepted program, if it ends, ends as it should.
-/

set_option autoImplicit false

namespace Lox

open Machine

variable {source : String} {p : Program} {ss : List Stmt} {m m' : Machine} {env env' : FrameId}
  {n : Node} {e : Expr} {fuel : Nat} {sink : Sink} {clock : Clock} {α : Type}

/-- An assignment, the value of which is there, to a variable within its own initial value. -/
def AssignsEarly (ss : List Stmt) : Guard := fun n env m ↦ ∃ Δ id name value fuel v m₁,
  n = .expr (.assign id name value) ∧ Stands ss m env Δ n.code ∧ Δ.Awaiting name.text ∧
    (evaluator fuel).evaluate value env m = .done v m₁

/-- To stop without an end, or with a failure that should not be within reach. -/
def Astray : Option Failure → Prop
  | none => True
  | some (.internal _) => True
  | some _ => False

/-! ### An early assignment goes astray -/

/-- There is no place for the value of an early assignment in the frame that it is meant for. -/
theorem store_early {Δ : Setting} {id : NodeId} {name : Name} {value : Expr} (h : m.Fits ss)
    (hstands : Stands ss m env Δ (.expr (.assign id name value)))
    (hawaiting : Δ.Awaiting name.text) (v : Value) :
    Evaluation.store id name v env m =
      .failed (.internal (.frame (.unassignable name.text 0 env))) m := by
  obtain ⟨s, outer, rfl, hawaited, hincomplete⟩ := hawaiting
  have hd : Setting.distance? (s :: outer) name.text = some 0 :=
    Setting.distance?_eq_some_iff.2 ⟨⟨s, rfl, by simp [OpenScope.declares, hawaited]⟩,
      fun i hi ↦ absurd hi (Nat.not_lt_zero i)⟩
  have hentry : m.distances.find? id = some 0 :=
    ((h.settled _ _ (hstands.site.part .assigned)).distance id name.text rfl).trans hd
  obtain ⟨f, hf⟩ := hstands.mirrors.live h.live_globals
  have habsent : ¬f.values.contains name.text = true := fun hx ↦
    hincomplete (hstands.exact_ s outer f rfl hf name.text hx)
  exact (Evaluation.store_of_entry hentry rfl hf name v).trans (if_neg habsent)

theorem astray_of_assignsEarly (hread : WellRead [] (.stmts ss)) (h : m.Fits ss)
    (hearly : AssignsEarly ss (.expr e) env m) (fuel : Nat) :
    ∃ way, (Evaluation.evaluate (evaluator fuel) e env m).stop? = some way ∧ Astray way := by
  obtain ⟨Δ, id, name, value, fuel', v, m₁, hassign, hstands, hawaiting, hdone⟩ := hearly
  obtain rfl : e = .assign id name value := Node.expr.inj hassign
  change ∃ way, (((evaluator fuel).evaluate value env >>= fun v ↦
    Evaluation.store id name v env >>= fun _ ↦ pure v) m).stop? = some way ∧ Astray way
  rw [Action.bind_apply]
  rcases evaluate_of_done hdone fuel with hfuel | hvalue
  · rw [hfuel]
    exact ⟨none, rfl, trivial⟩
  · obtain ⟨hcomes, -⟩ :=
      ((minds_evaluator hread fuel).evaluate h (hstands.part .value)).of_done hvalue
    have hstore := store_early hcomes.fits (hstands.grow h.live_globals hcomes.grows) hawaiting v
    rw [hvalue]
    simp only [Action.bind_apply, hstore]
    exact ⟨some (.internal (.frame (.unassignable name.text 0 env))), rfl, trivial⟩

/-- A watch for early assignments changes nothing about a run that does not go astray. -/
theorem watched_compares_kept (hread : WellRead [] (.stmts ss)) (alarm : Failure) (fuel : Nat) :
    (watched (fun n env m ↦ ¬AssignsEarly ss n env m) alarm fuel).Compares (fun _ ↦ False) Astray
      (watched (Kept ss) (.internal .superNotClass) fuel) := by
  induction fuel with
  | zero => exact ⟨fun e env ↦ Action.compares_refl _, fun s env ↦ Action.compares_refl _⟩
  | succ fuel ih =>
    refine ⟨fun e env m ↦ ?_, fun s env m ↦ ?_⟩
    · simp only [watched]
      by_cases hkept : Kept ss (.expr e) env m
      · rw [if_pos hkept]
        by_cases hearly : AssignsEarly ss (.expr e) env m
        · refine Or.inr (Or.inr ?_)
          have hwatched := watched_compares (Kept ss) (.internal .superNotClass) fuel
          rcases Evaluation.compares_evaluate hwatched e env m with heq | ⟨way, hway, rfl⟩ | hnever
          · rw [heq]
            exact astray_of_assignsEarly hread hkept.1 hearly fuel
          · exact ⟨_, hway, trivial⟩
          · obtain ⟨_, _, hfalse⟩ := hnever
            exact hfalse.elim
        · rw [if_pos hearly]
          exact Evaluation.compares_evaluate ih e env m
      · rw [if_neg hkept]
        exact Or.inr (Or.inr ⟨_, rfl, trivial⟩)
    · simp only [watched]
      by_cases hkept : Kept ss (.stmt s) env m
      · have hnot : ¬AssignsEarly ss (.stmt s) env m := by
          rintro ⟨_, _, _, _, _, _, _, hassign, -⟩
          cases hassign
        rw [if_pos hkept, if_pos hnot]
        exact Evaluation.compares_execute ih (Or.inl rfl) s env m
      · rw [if_neg hkept]
        exact Or.inr (Or.inr ⟨_, rfl, trivial⟩)

/-! ### Runs of accepted programs -/

theorem assignsEarly_iff {ρ : FrameId → FrameId} (h : Similar ρ m m')
    (henv : Points ρ m env env') : AssignsEarly ss n env' m' ↔ AssignsEarly ss n env m := by
  constructor
  · rintro ⟨Δ, id, name, value, fuel, v, m₁, hn, hstands, hawaiting, hdone⟩
    obtain ⟨v', m₁', hdone'⟩ :=
      ((follows_evaluator fuel).evaluate value h henv).exists_done' hdone
    exact ⟨Δ, id, name, value, fuel, v', m₁', hn, (h.stands_iff henv).1 hstands, hawaiting, hdone'⟩
  · rintro ⟨Δ, id, name, value, fuel, v, m₁, hn, hstands, hawaiting, hdone⟩
    obtain ⟨ρ₁, v', m₁', hdone', -⟩ :=
      ((follows_evaluator fuel).evaluate value h henv).exists_done hdone
    exact ⟨Δ, id, name, value, fuel, v', m₁', hn, (h.stands_iff henv).2 hstands, hawaiting, hdone'⟩

/-- Where the slots are does not make a fault of a failure. -/
theorem Failure.internal_of_unslotted {fault : InternalFault} {cause : Failure}
    (h : Failure.unslotted (.internal fault) = cause.unslotted) :
    ∃ fault', cause = .internal fault' := by
  cases cause with
  | internal fault' => exact ⟨fault', rfl⟩
  | _ => cases fault <;> cases h

theorem InternalFault.unassignable_of_unslotted {fault : InternalFault} {x : String} {d : Nat}
    (h : Failure.unslotted (.internal fault) =
      Failure.unslotted (.internal (.frame (.unassignable x d env)))) :
    ∃ env', fault = .frame (.unassignable x d env') := by
  cases fault with
  | frame fault =>
    cases fault <;> cases h
    exact ⟨_, rfl⟩
  | _ => cases h

namespace Program

/-- A run on a machine that releases frames, and the one on a machine that retains them. -/
theorem follows_run (p : Program) (fuel : Nat) (sink : Sink) (clock : Clock) :
    (p.run fuel (Machine.initial sink clock)).Follows (fun _ ↦ False) (fun _ ↦ False) id
      ((Machine.initial sink clock).install p.distances)
      (p.run fuel (Machine.initial sink clock).retaining) :=
  Session.follows_runStatements (follows_evaluator fuel) (p.similar_initial sink clock) p.statements

/-- If a run ends with a fault so does the one that retains its frames. -/
theorem exists_retaining_internal {fault : InternalFault}
    (hrun : p.run fuel (.initial sink clock) = .failed (.internal fault) m) :
    ∃ fault' m', p.run fuel (Machine.initial sink clock).retaining =
      .failed (.internal fault') m' ∧
        Failure.unslotted (.internal fault) = Failure.unslotted (.internal fault') := by
  have hfollows := p.follows_run fuel sink clock
  rw [hrun] at hfollows
  generalize p.run fuel (Machine.initial sink clock).retaining = o at hfollows
  cases hfollows with
  | failed hsame hlead hsim =>
    obtain ⟨fault', rfl⟩ := Failure.internal_of_unslotted hsame
    exact ⟨fault', _, rfl, hsame⟩
  | left hstop hallowed => exact hallowed.elim
  | right hstop hallowed => exact hallowed.elim

/-- If a run does not go astray neither does the one that retains its frames. -/
theorem not_astray_retaining
    (hrun : ∀ way, (p.run fuel (.initial sink clock)).stop? = some way → ¬Astray way) :
    ∀ way, (p.run fuel (Machine.initial sink clock).retaining).stop? = some way → ¬Astray way := by
  intro way hway hastray
  have hfollows := p.follows_run fuel sink clock
  generalize p.run fuel (Machine.initial sink clock) = o at hrun hfollows
  generalize p.run fuel (Machine.initial sink clock).retaining = o' at hway hfollows
  cases hfollows with
  | outOfFuel => exact hrun none rfl trivial
  | done hlead hsim ha => simp [Outcome.stop?] at hway
  | @failed cause cause' _ _ _ hsame hlead hsim =>
    obtain rfl : some cause' = way := Option.some.inj hway
    cases cause' with
    | internal fault' =>
      obtain ⟨fault, rfl⟩ := Failure.internal_of_unslotted hsame.symm
      exact hrun _ rfl trivial
    | _ => exact hastray
  | left hstop hallowed => exact hallowed.elim
  | right hstop hallowed => exact hallowed.elim

/-- The one fault within reach is that of an early assignment. -/
theorem fault_of_internal (h : ofSource source = .ok p) {fault : InternalFault}
    (hrun : p.run fuel (.initial sink clock) = .failed (.internal fault) m) :
    ∃ x env, fault = .frame (.unassignable x 0 env) := by
  let bad (cause : Failure) : Prop := ∀ fault : InternalFault, cause = .internal fault →
    ∃ x env, fault = .frame (.unassignable x 0 env)
  have hbad : Tolerates bad := ⟨fun _ _ ↦ nofun, nofun⟩
  have hminds : (watched (fun _ _ _ ↦ True) .sinkFull fuel).Minds p.statements bad :=
    minds_watched (wellRead_of_ofSource h []) hbad (fun _ _ ↦ Or.inl trivial)
      (fun _ _ _ _ _ _ _ hfault ↦ ⟨_, _, (Failure.internal.inj hfault).symm⟩) fuel
  rw [watched_true] at hminds
  have hends : (p.run fuel (Machine.initial sink clock).retaining).Ends (fun _ _ ↦ True)
      fun cause _ ↦ bad cause :=
    minds_runStatements hminds (fits_initial h sink clock) p.statements (stands_initial _ _)
  obtain ⟨fault', m', hretaining, hsame⟩ := exists_retaining_internal hrun
  obtain ⟨x, env, rfl⟩ := hends.of_failed hretaining fault' rfl
  obtain ⟨env', rfl⟩ := InternalFault.unassignable_of_unslotted hsame
  exact ⟨x, env', rfl⟩

/-- A run without early assignments ends with no fault. -/
theorem not_internal_of_always (h : ofSource source = .ok p)
    (halways : p.Always fuel (.initial sink clock)
      fun n env m ↦ ¬AssignsEarly p.statements n env m)
    {fault : InternalFault} : p.run fuel (.initial sink clock) ≠ .failed (.internal fault) m := by
  intro hrun
  have hbad : Tolerates fun cause ↦ ∀ fault, cause ≠ .internal fault := ⟨fun _ _ ↦ nofun, nofun⟩
  have hminds : (watched (fun n env m ↦ ¬AssignsEarly p.statements n env m) .sinkFull
      fuel).Minds p.statements fun cause ↦ ∀ fault, cause ≠ .internal fault := by
    refine minds_watched (wellRead_of_ofSource h []) hbad (fun _ _ ↦ Or.inr hbad.sinkFull)
      (fun {m env Δ id name value v m₁} fuel hfits hstands hpass hawaiting hdone ↦ ?_) fuel
    have hwatched := (watched_compares (fun n env m ↦ ¬AssignsEarly p.statements n env m) .sinkFull
      fuel).evaluate value env m
    rw [hdone] at hwatched
    have hplain := hwatched.eq (fun _ hway ↦ nomatch hway) fun _ _ ↦ not_false
    exact absurd ⟨Δ, id, name, value, fuel, v, m₁, rfl, hstands, hawaiting, hplain.symm⟩ hpass
  have hretaining := always_retaining
    (fun n hsim henv hnot hearly ↦ hnot ((assignsEarly_iff hsim henv).1 hearly)) halways
  have hends := minds_runStatements hminds (fits_initial h sink clock) p.statements
    (stands_initial _ _)
  rw [hretaining .sinkFull] at hends
  obtain ⟨fault', m', hfailed, -⟩ := exists_retaining_internal hrun
  exact hends.of_failed hfailed fault' rfl

/-- A run that ends with no fault is one without early assignments. -/
theorem always_of_not_astray (h : ofSource source = .ok p)
    (hrun : ∀ way, (p.run fuel (.initial sink clock)).stop? = some way → ¬Astray way) :
    p.Always fuel (.initial sink clock) fun n env m ↦ ¬AssignsEarly p.statements n env m := by
  have hretaining := not_astray_retaining hrun
  have hcompares := compares_runStatements (watched_compares_kept (wellRead_of_ofSource h [])
    (.internal .superNotClass) fuel) p.statements
    ((Machine.initial sink clock).retaining.install p.distances)
  rw [always_kept h fuel sink clock] at hcompares
  have hsame := hcompares.eq (fun _ _ ↦ not_false) hretaining
  have hquiet : (p.run fuel (Machine.initial sink clock).retaining).stop? ≠
      some (some (.internal .superNotClass)) := fun hstop ↦ hretaining _ hstop trivial
  rw [← hsame] at hquiet
  exact always_of_retaining
    (fun n hsim henv hnot hearly ↦ hnot ((assignsEarly_iff hsim henv).2 hearly))
    (always_of_quiet hquiet)

end Program

/-! ### Source texts -/

/-- What a run has failed with. -/
def Run.cause? : Run → Option Failure
  | .failed cause _ => some cause
  | _ => none

/-- A source text is run without an internal fault, or without an end, exactly if the run comes to
no early assignment; and there is no other fault than that of such an assignment. -/
theorem Run.clean_iff_never_assignsEarly (fuel : Nat) (sink : Sink) (clock : Clock)
    (source : String) :
    ((∀ fault, (Run.ofSource fuel sink clock source).cause? ≠ some (.internal fault)) ↔
      Run.ofSource fuel sink clock source = .outOfFuel ∨
        ∀ p, Program.ofSource source = .ok p →
          p.Always fuel (.initial sink clock) fun n env m ↦ ¬AssignsEarly p.statements n env m) ∧
    ∀ fault, (Run.ofSource fuel sink clock source).cause? = some (.internal fault) →
      ∃ x env, fault = .frame (.unassignable x 0 env) := by
  unfold Run.ofSource
  cases hsource : Program.ofSource source with
  | error diagnostics => exact ⟨⟨fun _ ↦ Or.inr nofun, fun _ ↦ nofun⟩, nofun⟩
  | ok p =>
    dsimp only
    cases hrun : p.run fuel (.initial sink clock) with
    | outOfFuel => exact ⟨⟨fun _ ↦ Or.inl rfl, fun _ ↦ nofun⟩, nofun⟩
    | done answer m =>
      refine ⟨⟨fun _ ↦ Or.inr fun p' hp ↦ ?_, fun _ ↦ nofun⟩, nofun⟩
      obtain rfl := Except.ok.inj hp
      refine Program.always_of_not_astray hsource fun way hway ↦ ?_
      simp [hrun, Outcome.stop?] at hway
    | failed cause m =>
      refine ⟨⟨fun hclean ↦ Or.inr fun p' hp ↦ ?_, fun halways fault hcause ↦ ?_⟩,
        fun fault hcause ↦ ?_⟩
      · obtain rfl := Except.ok.inj hp
        refine Program.always_of_not_astray hsource fun way hway hastray ↦ ?_
        rw [hrun] at hway
        obtain rfl : some cause = way := Option.some.inj hway
        cases cause with
        | internal fault => exact hclean fault rfl
        | _ => exact hastray
      · obtain rfl : cause = .internal fault := Option.some.inj hcause
        rcases halways with hfuel | halways
        · cases hfuel
        · exact Program.not_internal_of_always hsource (halways p rfl) hrun
      · obtain rfl : cause = .internal fault := Option.some.inj hcause
        exact Program.fault_of_internal hsource hrun

/-- The variable has its scope, but the frame does not have it yet. -/
theorem Run.faults_on_assignment_in_own_initializer :
    (Run.ofSource 100 .unlimited .stopped "{ var a = a = 1; }").cause? =
      some (.internal (.frame (.unassignable "a" 0 ⟨1⟩))) := by
  decide +kernel

end Lox
