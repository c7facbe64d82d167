import Lox.Proofs.Calls.Binding
import Lox.Proofs.Scope.Accepted

/-!
Programs that differ in parentheses around the property accesses that they call. Their names are
resolved alike, and their runs print the same and end alike: on machines that retain their frames
each goes like the run of its direct form, and these are one. A sink with room for so many bytes
shows what a run has printed that does not end, too.
-/

set_option autoImplicit false

namespace Lox

/-! ### How runs end -/

/-- What shows of an outcome. -/
def Run.of : Outcome Unit → Run
  | .outOfFuel => .outOfFuel
  | .failed cause m => .failed cause m.sink.written
  | .done _ m => .finished m.sink.written

/-- The run with every slot number in its message set to zero. -/
def Run.unslotted : Run → Run
  | .failed cause printed => .failed cause.unslotted printed
  | run => run

/-- Runs that end alike, and print the same, given fuel enough: for whichever end one of them comes
to, so does the other. -/
def Run.EndAlike (run run' : Nat → Run) : Prop :=
  ∀ r, r ≠ .outOfFuel → ((∃ fuel, (run fuel).unslotted = r) ↔ ∃ fuel, (run' fuel).unslotted = r)

namespace Run

theorem EndAlike.symm {run run' : Nat → Run} (h : EndAlike run run') : EndAlike run' run :=
  fun r hr ↦ (h r hr).symm

theorem EndAlike.trans {run run' run'' : Nat → Run} (h : EndAlike run run')
    (h' : EndAlike run' run'') : EndAlike run run'' :=
  fun r hr ↦ (h r hr).trans (h' r hr)

theorem of_ne_outOfFuel {o : Outcome Unit} (h : (of o).unslotted ≠ .outOfFuel) :
    ∀ way, o.stop? = some way → way ≠ none := by
  rintro way hway rfl
  cases o with
  | outOfFuel => exact h rfl
  | _ => cases hway

theorem ofSource_of_ok {source : String} {p : Program} (h : Program.ofSource source = .ok p)
    (fuel : Nat) (sink : Sink) (clock : Clock) :
    ofSource fuel sink clock source = of (p.run fuel (.initial sink clock)) := by
  cases hrun : p.run fuel (.initial sink clock) <;> simp only [ofSource, h, hrun, of]

end Run

theorem Outcome.Follows.run {o o' : Outcome Unit} {ρ : FrameId → FrameId} {m : Machine}
    (h : o.Follows Session.never Session.never ρ m o') :
    (Run.of o).unslotted = (Run.of o').unslotted := by
  cases h with
  | outOfFuel => rfl
  | @failed cause cause' _ _ _ hcause _ hsim =>
    change Run.failed cause.unslotted _ = Run.failed cause'.unslotted _
    rw [hcause, hsim.sink]
  | done _ hsim _ => exact congrArg (fun sink : Sink ↦ Run.finished sink.written) hsim.sink.symm
  | left _ hallowed => exact hallowed.elim
  | right _ hallowed => exact hallowed.elim

theorem Comparison.Alike.run {left right : Option Failure → Prop} {w : Counterparts}
    {o o' : Outcome Unit} (h : (direct left right).Alike w (anything _) o o')
    (hleft : ∀ way, o.stop? = some way → ¬left way)
    (hright : ∀ way, o'.stop? = some way → ¬right way) :
    (Run.of o).unslotted = (Run.of o').unslotted := by
  cases h with
  | outOfFuel => rfl
  | @failed cause cause' _ _ _ _ hm hcause =>
    change Run.failed cause.unslotted _ = Run.failed cause'.unslotted _
    rw [show cause.unslotted = cause'.unslotted from hcause, Machine.Abreast.sink hm]
  | done _ hm _ =>
    exact congrArg (fun sink : Sink ↦ Run.finished sink.written) (Machine.Abreast.sink hm)
  | left hstop hexcused => exact absurd hexcused (hleft _ hstop)
  | right hstop hexcused => exact absurd hexcused (hright _ hstop)

/-! ### The beginning -/

/-- The global frames are the only counterparts. -/
def Counterparts.initial : Counterparts where
  frames k k' := k = Arena.globals ∧ k' = Arena.globals
  ids _ _ := False
  waiting _ _ _ := False

theorem Native.pairs_bindings (π : Pairing) :
    Native.bindings.Pairs (Value.Pairs π) Native.bindings := by
  refine Bindings.Pairs.merge .nil ?_
  unfold Bindings.Pairs
  exact List.forall₂_map_left_iff.2 (List.forall₂_map_right_iff.2
    (List.forall₂_same.2 fun f _ ↦ ⟨rfl, .plain trivial⟩))

theorem abreast_initial (sink : Sink) (clock : Clock) (D : Distances) :
    Machine.Abreast .initial ((Machine.initial sink clock).retaining.install D)
      ((Machine.initial sink clock).retaining.install D) := by
  have hframe (k : FrameId) : ((Machine.initial sink clock).retaining.install D).arena.frame? k =
      if k = Arena.globals then some ⟨Native.bindings, none, true⟩ else none :=
    Arena.frame?_ofGlobals Native.bindings k
  have hlasting : ((Machine.initial sink clock).retaining.install D).arena.Lasting := by
    refine ⟨rfl, rfl, fun k f outer hk houter ↦ ?_⟩
    rw [hframe] at hk
    split at hk
    · cases hk
      cases houter
    · cases hk
  refine ⟨⟨hlasting, hlasting, ?_, ?_, ⟨rfl, rfl⟩, False.elim⟩, rfl, fun i ↦ .none, False.elim,
    fun h ↦ h.elim, rfl, rfl, rfl⟩
  · rintro _ _ ⟨rfl, rfl⟩
    exact ⟨_, _, (hframe _).trans (if_pos rfl), (hframe _).trans (if_pos rfl),
      Native.pairs_bindings _, .none⟩
  · rintro _ _ _ _ ⟨rfl, rfl⟩ ⟨rfl, rfl⟩
    exact ⟨fun _ ↦ rfl, fun _ ↦ rfl⟩

/-! ### Programs and their direct forms -/

namespace Program

/-- The program in which every method is called directly. -/
def direct (p : Program) : Program := ⟨Stmt.directAll p.statements, p.distances⟩

variable (p : Program) (sink : Sink) (clock : Clock)

theorem run_retaining (fuel : Nat) :
    (Run.of (p.run fuel (.initial sink clock))).unslotted =
      (Run.of (p.run fuel (Machine.initial sink clock).retaining)).unslotted :=
  (Session.follows_runStatements (follows_evaluator fuel)
    (Session.Similar.install (tidy_initial sink clock).similar p.distances) p.statements).run

theorem alike_run_direct {left right : Option Failure → Prop} {fuel fuel' : Nat}
    (hfuel : 3 * fuel ≤ fuel' ∧ left none ∨ fuel' ≤ fuel ∧ right none) :
    (Comparison.direct left right).Alike .initial (Comparison.anything _)
      (p.direct.run fuel (Machine.initial sink clock).retaining)
      (p.run fuel' (Machine.initial sink clock).retaining) :=
  Comparison.alike_runStatements Comparison.lawful_direct (Comparison.evaluators_direct hfuel)
    (Stmt.forall₂_directAll p.statements) (abreast_initial sink clock p.distances)

/-- A program ends as its direct form does. -/
theorem endAlike_direct :
    Run.EndAlike (fun fuel ↦ .of (p.direct.run fuel (.initial sink clock)))
      fun fuel ↦ .of (p.run fuel (.initial sink clock)) := by
  rintro r hr
  constructor
  · rintro ⟨fuel, rfl⟩
    refine ⟨3 * fuel, ?_⟩
    have halike : (Comparison.direct (fun way ↦ way = none) fun _ ↦ False).Alike .initial
        (Comparison.anything _) (p.direct.run fuel _) (p.run (3 * fuel) _) :=
      p.alike_run_direct sink clock (Or.inl ⟨Nat.le_refl _, rfl⟩)
    rw [run_retaining] at hr ⊢
    rw [run_retaining]
    exact (halike.run (Run.of_ne_outOfFuel hr) fun _ _ ↦ id).symm
  · rintro ⟨fuel, rfl⟩
    refine ⟨fuel, ?_⟩
    have halike : (Comparison.direct (fun _ ↦ False) fun way ↦ way = none).Alike .initial
        (Comparison.anything _) (p.direct.run fuel _) (p.run fuel _) :=
      p.alike_run_direct sink clock (Or.inr ⟨Nat.le_refl _, rfl⟩)
    rw [run_retaining] at hr ⊢
    rw [run_retaining]
    exact halike.run (fun _ _ ↦ id) (Run.of_ne_outOfFuel hr)

variable {p} {source : String}

/-- It makes no difference whether a method is called directly or as a value that it has been bound
to before the arguments are evaluated: programs of one direct form, which differ in parentheses
around the property accesses that they call, are accepted with the same distances, print the same
and end alike. -/
theorem bound_calls_agree (h : ofSource source = .ok p) {ss : List Stmt}
    (hss : Stmt.directAll ss = Stmt.directAll p.statements) :
    Resolution.ofStatements ss = ⟨p.distances, []⟩ ∧
      (∀ sink clock, Run.EndAlike (fun fuel ↦ .of (p.run fuel (.initial sink clock)))
        fun fuel ↦ .of (run fuel ⟨ss, p.distances⟩ (.initial sink clock))) ∧
      ∀ source', Scan.diagnostics source' = [] →
        (Reading.ofTokens (Scan.tokens source')).diagnostics = [] →
        (Reading.ofTokens (Scan.tokens source')).statements = ss →
        ∀ sink clock, Run.EndAlike (fun fuel ↦ .ofSource fuel sink clock source)
          fun fuel ↦ .ofSource fuel sink clock source' := by
  obtain ⟨-, hdistances, hclean⟩ := clean_of_ofSource h
  have hsame : Resolution.ofStatements ss = Resolution.ofStatements p.statements := by
    rw [← Resolution.ofStatements_direct ss, hss, Resolution.ofStatements_direct]
  have hresolved : Resolution.ofStatements ss = ⟨p.distances, []⟩ := by
    rw [hsame, hdistances, ← hclean]
  have hruns (sink : Sink) (clock : Clock) :
      Run.EndAlike (fun fuel ↦ .of (p.run fuel (.initial sink clock)))
        fun fuel ↦ .of (run fuel ⟨ss, p.distances⟩ (.initial sink clock)) := by
    have hdirect : direct ⟨ss, p.distances⟩ = p.direct := congrArg (Program.mk · p.distances) hss
    have hmiddle := endAlike_direct ⟨ss, p.distances⟩ sink clock
    rw [hdirect] at hmiddle
    exact (endAlike_direct p sink clock).symm.trans hmiddle
  refine ⟨hresolved, hruns, fun source' hscan hread hstatements sink clock ↦ ?_⟩
  have h' : ofSource source' = .ok ⟨ss, p.distances⟩ :=
    ofSource_eq_ok.2 ⟨hscan, hread, hstatements.symm, by rw [hresolved], by rw [hresolved]⟩
  simp only [Run.ofSource_of_ok h, Run.ofSource_of_ok h']
  exact hruns sink clock

/-- A method of the extended class, and an argument that sets the field that the method reads. -/
def directCalls : String :=
  "class A { m(x) { print this.n; } } class B < A { m(x) { super.m(x); } }
  var b = B(); b.m(b.n = 1);"

def boundCalls : String :=
  "class A { m(x) { print this.n; } } class B < A { m(x) { (super.m)(x); } }
  var b = B(); (b.m)(b.n = 1);"

theorem isOk_directCalls : (ofSource directCalls).isOk = true := by decide +kernel

theorem clean_boundCalls : Scan.diagnostics boundCalls = [] ∧
    (Reading.ofTokens (Scan.tokens boundCalls)).diagnostics = [] := by decide +kernel

theorem directAll_boundCalls :
    Stmt.directAll (Reading.ofTokens (Scan.tokens boundCalls)).statements =
      Stmt.directAll (Reading.ofTokens (Scan.tokens directCalls)).statements := by decide +kernel

theorem bound_calls_agree_directCalls : ∃ p, ofSource directCalls = .ok p ∧
    Stmt.directAll (Reading.ofTokens (Scan.tokens boundCalls)).statements =
      Stmt.directAll p.statements ∧
    ∀ sink clock, Run.EndAlike (fun fuel ↦ .ofSource fuel sink clock directCalls)
      fun fuel ↦ .ofSource fuel sink clock boundCalls := by
  obtain ⟨p, hp⟩ := exists_of_isOk isOk_directCalls
  have hsame := directAll_boundCalls.trans (congrArg Stmt.directAll (clean_of_ofSource hp).1.symm)
  obtain ⟨hscan, hread⟩ := clean_boundCalls
  obtain ⟨-, -, hsources⟩ := bound_calls_agree hp hsame
  exact ⟨p, hp, hsame, hsources boundCalls hscan hread rfl⟩

end Program

end Lox
