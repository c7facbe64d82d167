import Lox.Proofs.Appending.Resolution
import Lox.Proofs.Run.InStep
import Lox.Proofs.Scope.Runs

/-!
Runs of texts that have been put one behind the other. The distances that the second text adds are
those of nodes that a run of the first one never comes to, so the statements of the first run in
step with the whole until they end, and what they have printed by then stays where it is.
-/

set_option autoImplicit false

namespace Lox

/-! ### Sinks that only take in more -/

/-- The sink holds no more than it has room for. -/
def Sink.Roomy (s : Sink) : Prop :=
  ∀ capacity, s.capacity = some capacity → s.written.size ≤ capacity

/-- One sink for both runs, which keeps what has been written to it. -/
def Outlets.shared : Outlets where
  World := ByteArray
  Grows w w₁ := ∃ more, w₁ = w ++ more
  sinks w s s' := s = s' ∧ s.written = w ∧ s.Roomy

theorem extract_of_size_le {b : ByteArray} {n : Nat} (h : b.size ≤ n) : b.extract 0 n = b := by
  refine ByteArray.ext ?_
  rw [ByteArray.data_extract]
  exact Array.extract_eq_self_of_le h

theorem lawful_shared (left right : Option Failure → Prop) : Outlets.shared.Lawful left right where
  refl w := ⟨.empty, ByteArray.append_empty.symm⟩
  trans := by
    rintro w w₁ w₂ ⟨more, rfl⟩ ⟨more', rfl⟩
    exact ⟨more ++ more', ByteArray.append_assoc⟩
  write := by
    rintro w s s' text ⟨rfl, rfl, hroomy⟩
    refine Or.inl ?_
    unfold Sink.write
    dsimp only
    split
    next hnone => exact ⟨_, ⟨_, rfl⟩, ⟨rfl, rfl, fun c hc ↦ nomatch hnone.symm.trans hc⟩, rfl⟩
    next capacity hsome =>
      split
      next hfits =>
        refine ⟨_, ⟨_, rfl⟩, ⟨rfl, rfl, fun c hc ↦ ?_⟩, rfl⟩
        cases hsome.symm.trans hc
        exact hfits
      next hfull =>
        refine ⟨_, ⟨text.toUTF8.extract 0 (capacity - s.written.size), rfl⟩,
          ⟨rfl, ?_, fun c hc ↦ ?_⟩, rfl⟩
        · change (s.written ++ text.toUTF8).extract 0 capacity = _
          rw [ByteArray.extract_append, extract_of_size_le (hroomy capacity hsome), Nat.zero_sub]
        · cases hsome.symm.trans hc
          change ((s.written ++ text.toUTF8).extract 0 capacity).size ≤ capacity
          rw [ByteArray.size_extract]
          omega

/-! ### Runs that come to some nodes only -/

section

open Comparison

variable {W : Outlets} {reached : NodeId → Prop} {left right : Option Failure → Prop}

/-- A node whose names are all reached. -/
def Among (reached : NodeId → Prop) : Guard := fun n _ _ ↦ ∀ id ∈ n.code.ids, reached id

theorem evaluators_watched (hW : W.Lawful left right) (alarm : Failure) (fuel : Nat) :
    (inStep W reached left right).Evaluators (watched (Among reached) alarm fuel)
      (watched (Among reached) alarm fuel) := by
  have law : (inStep W reached left right).Lawful := lawful_inStep hW
  induction fuel with
  | zero => exact ⟨fun _ _ _ ↦ .outOfFuel, fun _ _ _ ↦ .outOfFuel⟩
  | succ fuel ih =>
    refine ⟨fun {w m m' env env' e e'} he hm henv ↦ ?_,
      fun {w m m' env env' s s'} hs hm henv ↦ ?_⟩
    · cases he
      simp only [watched]
      by_cases hamong : Among reached (.expr e) env m
      · rw [if_pos hamong, if_pos (show Among reached (.expr e) env' m' from hamong)]
        exact alike_evaluate law ih (expressions_refl e hamong) hm henv
      · rw [if_neg hamong, if_neg (show ¬Among reached (.expr e) env' m' from hamong)]
        exact .failed (law.refl w) hm rfl
    · cases hs
      simp only [watched]
      by_cases hamong : Among reached (.stmt s) env m
      · rw [if_pos hamong, if_pos (show Among reached (.stmt s) env' m' from hamong)]
        exact alike_execute law ih (statements_refl s hamong) ⟨Or.inl le_rfl, Or.inl le_rfl⟩ hm henv
      · rw [if_neg hamong, if_neg (show ¬Among reached (.stmt s) env' m' from hamong)]
        exact .failed (law.refl w) hm rfl

end

/-- Runs in step on one sink. -/
abbrev Comparison.shared (reached : NodeId → Prop) : Comparison :=
  .inStep .shared reached (fun _ ↦ False) fun _ ↦ False

theorem Comparison.lawful_shared_ (reached : NodeId → Prop) : (shared reached).Lawful :=
  lawful_inStep (lawful_shared _ _)

/-! ### The statements of the first text -/

namespace Program

variable {source : String} {p : Program}

/-- A program and, behind it, a second one, whose nodes come later. -/
def followedBy (p q : Program) (δ : Shift) : Program where
  statements := p.statements ++ Stmt.shiftAll δ q.statements
  distances := ⟨p.distances.entries ++ (q.distances.later δ.ids).entries⟩

/-- A text behind another one that is a program makes a program with it. -/
theorem ofSource_join {first second : String} {q : Program} (h : ofSource first = .ok p)
    (h' : ofSource second = .ok q) :
    ofSource (first ++ "\n" ++ second) = .ok (p.followedBy q (Reading.shiftBehind first)) := by
  obtain ⟨hscan, hread, hstatements, hdistances, hclean⟩ := ofSource_eq_ok.1 h
  obtain ⟨hscan', hread', hstatements', hdistances', hclean'⟩ := ofSource_eq_ok.1 h'
  have hjoined := Reading.ofSource_join hscan hread hread'
  obtain ⟨hentries, hreports⟩ := Resolution.ofStatements_append (wellRead_of_ofSource h [])
    (nodup_ids_of_ofSource h) hclean (Reading.shiftBehind first) (lt_idCount_of_ofSource h)
    q.statements
  refine ofSource_eq_ok.2 ⟨Scan.diagnostics_join hscan hscan', ?_, ?_, ?_, ?_⟩
  · exact congrArg Reading.diagnostics hjoined
  · unfold followedBy
    rw [hstatements, hstatements']
    exact (congrArg Reading.statements hjoined).symm
  · unfold followedBy
    rw [hdistances, hdistances']
    exact congrArg Bindings.mk hentries.symm
  · exact hreports.trans (congrArg (List.map _) hclean')

theorem runStatements_append (sub : Evaluator) (ss ts : List Stmt) :
    runStatements sub (ss ++ ts) = runStatements sub ss >>= fun _ ↦ runStatements sub ts := by
  induction ss with
  | nil => rfl
  | cons s ss ih =>
    change (sub.execute s Arena.globals >>= fun flow ↦ _) = (_ >>= fun flow ↦ _) >>= fun _ ↦ _
    rw [bind_assoc]
    congr 1
    funext flow
    cases flow with
    | normal => exact ih
    | returned v => rfl

/-- The second program runs from where the first one has come to, under all distances. -/
theorem run_followedBy (p q : Program) (δ : Shift) (fuel : Nat) (m : Machine) :
    (p.followedBy q δ).run fuel m = (runStatements (evaluator fuel) p.statements >>= fun _ ↦
      runStatements (evaluator fuel) (Stmt.shiftAll δ q.statements))
        (m.install (p.followedBy q δ).distances) :=
  congrFun (runStatements_append (evaluator fuel) p.statements _) _

/-- A run comes to nodes of its program only. -/
theorem always_among (h : ofSource source = .ok p) (fuel : Nat) (sink : Sink) (clock : Clock) :
    p.Always fuel (.initial sink clock) (Among fun id ↦ id ∈ Stmt.idsAll p.statements) := by
  refine always_of_retaining (fun n _ _ hkept ↦ ?_) (always_kept h fuel sink clock)
  obtain ⟨-, Δ, hstands⟩ := hkept
  exact fun id hid ↦ hstands.site.ids_subset hid

/-- A run goes in step with that of the same statements under other distances, if those are the
same for all nodes of the program. -/
theorem run_inStep (h : ofSource source = .ok p) (fuel : Nat) {sink : Sink} (hroomy : sink.Roomy)
    (clock : Clock) {D : Distances}
    (hD : ∀ id ∈ Stmt.idsAll p.statements,
      (Bindings.empty.merge p.distances).find? id = (Bindings.empty.merge D).find? id) :
    (Comparison.shared fun id ↦ id ∈ Stmt.idsAll p.statements).Alike sink.written
      (Comparison.anything _) (p.run fuel (.initial sink clock))
      (runStatements (evaluator fuel) p.statements
        ((Machine.initial sink clock).install D)) := by
  let among := Among fun id ↦ id ∈ Stmt.idsAll p.statements
  obtain ⟨quiet, hquiet⟩ := (p.run fuel (.initial sink clock)).exists_quiet
  have hstart : (Comparison.shared fun id ↦ id ∈ Stmt.idsAll p.statements).machines sink.written
      ((Machine.initial sink clock).install p.distances)
      ((Machine.initial sink clock).install D) :=
    ⟨rfl, rfl, rfl, rfl, hD, rfl, rfl, hroomy⟩
  have halike := Comparison.alike_runStatements (Comparison.lawful_shared_ _)
    (evaluators_watched (lawful_shared _ _) quiet fuel)
    (List.forall₂_same.2 fun (s : Stmt) (_ : s ∈ p.statements) ↦ rfl) hstart
  rw [always_among h fuel sink clock quiet] at halike
  -- The watch that the first run does not notice is not noticed by the second one either.
  have hcalm : ∀ way, (runStatements (watched among quiet fuel) p.statements
      ((Machine.initial sink clock).install D)).stop? = some way → ¬way = some quiet := by
    rintro way hway rfl
    obtain ⟨m, hm⟩ := Outcome.stop?_eq_some_some hway
    rw [hm] at halike
    generalize p.run fuel (.initial sink clock) = o at halike hquiet
    cases halike with
    | failed _ _ hcause => exact hquiet _ _ rfl (congrArg Failure.unslotted hcause)
    | left _ hexcused => exact hexcused
    | right _ hexcused => exact hexcused
  rwa [(compares_runStatements (watched_compares among quiet fuel) p.statements _).eq hcalm
    fun _ _ ↦ not_false] at halike

/-- With the distances of a text behind it, a program begins as it does alone. -/
theorem run_begins {first : String} (h : ofSource first = .ok p) (q : Program) (fuel : Nat)
    {sink : Sink} (hroomy : sink.Roomy) (clock : Clock) :
    (Comparison.shared fun id ↦ id ∈ Stmt.idsAll p.statements).Alike sink.written
      (Comparison.anything _) (p.run fuel (.initial sink clock))
      (runStatements (evaluator fuel) p.statements ((Machine.initial sink clock).install
        (p.followedBy q (Reading.shiftBehind first)).distances)) := by
  refine run_inStep h fuel hroomy clock fun id hid ↦ ?_
  change _ = (Bindings.merge _ ⟨_ ++ _⟩).find? id
  rw [Bindings.merge_append]
  refine (Bindings.find?_merge_of_ne (fun e he heq ↦ ?_) _).symm
  obtain ⟨e', -, rfl⟩ := List.mem_map.1 he
  exact absurd (lt_idCount_of_ofSource h id hid) (heq ▸ Nat.not_lt.2 (Nat.le_add_left ..))

/-- What has been printed stays in front of all that is printed later. -/
theorem written_runStatements (fuel : Nat) (ss : List Stmt) {m : Machine} (hroomy : m.sink.Roomy) :
    (runStatements (evaluator fuel) ss m).Ends
      (fun _ m' ↦ ∃ more, m'.sink.written = m.sink.written ++ more)
      fun _ m' ↦ ∃ more, m'.sink.written = m.sink.written ++ more := by
  have hall : Among (fun _ ↦ True) = fun _ _ _ ↦ True := by
    funext n env m
    exact propext ⟨fun _ ↦ trivial, fun _ _ _ ↦ trivial⟩
  have hsub : (Comparison.shared fun _ ↦ True).Evaluators
      (watched (Among fun _ ↦ True) .sinkFull fuel)
      (watched (Among fun _ ↦ True) .sinkFull fuel) :=
    evaluators_watched (lawful_shared _ _) .sinkFull fuel
  rw [hall, watched_true] at hsub
  have halike := Comparison.alike_runStatements (Comparison.lawful_shared_ fun _ ↦ True) hsub
    (List.forall₂_same.2 fun (s : Stmt) (_ : s ∈ ss) ↦ rfl)
    (show (Comparison.shared fun _ ↦ True).machines m.sink.written m m from
      ⟨rfl, rfl, rfl, rfl, fun _ _ ↦ rfl, rfl, rfl, hroomy⟩)
  generalize runStatements (evaluator fuel) ss m = o at halike
  cases halike with
  | outOfFuel => trivial
  | failed hgrows hm _ => exact hgrows.imp fun _ hmore ↦ hm.sinks.2.1.trans hmore
  | done hgrows hm _ => exact hgrows.imp fun _ hmore ↦ hm.sinks.2.1.trans hmore
  | left _ hexcused => exact hexcused.elim
  | right _ hexcused => exact hexcused.elim

end Program

/-! ### The whole run -/

/-- How a run goes on when there is more to run: a failure is the end of it, and what has been
printed stays in front of what is printed then. -/
inductive Run.Continues : Run → Run → Prop
  | outOfFuel : Continues .outOfFuel .outOfFuel
  | failed (cause : Failure) (printed : ByteArray) :
    Continues (.failed cause printed) (.failed cause printed)
  | unfinished (printed : ByteArray) : Continues (.finished printed) .outOfFuel
  | failedLater (cause : Failure) (printed more : ByteArray) :
    Continues (.finished printed) (.failed cause (printed ++ more))
  | finished (printed more : ByteArray) :
    Continues (.finished printed) (.finished (printed ++ more))

namespace Program

variable {first second : String} {p q : Program}

theorem continues_ofSource_join (h : ofSource first = .ok p) (h' : ofSource second = .ok q)
    (fuel : Nat) {sink : Sink} (hroomy : sink.Roomy) (clock : Clock) :
    (Run.ofSource fuel sink clock first).Continues
      (Run.ofSource fuel sink clock (first ++ "\n" ++ second)) := by
  have halike := run_begins h q fuel hroomy clock
  unfold Run.ofSource
  rw [h, ofSource_join h h']
  dsimp only
  rw [run_followedBy, Action.bind_apply]
  generalize p.run fuel (.initial sink clock) = o at halike
  generalize runStatements (evaluator fuel) p.statements _ = o' at halike
  cases halike with
  | outOfFuel => exact .outOfFuel
  | left _ hexcused => exact hexcused.elim
  | right _ hexcused => exact hexcused.elim
  | @failed cause cause' _ m m' _ hstep hcause =>
    obtain rfl : cause = cause' := hcause
    dsimp only
    rw [← hstep.sinks.1]
    exact .failed cause _
  | @done _ _ _ m m' _ hstep _ =>
    obtain ⟨hsink, -, hroom⟩ := hstep.sinks
    have hlater := written_runStatements fuel
      (Stmt.shiftAll (Reading.shiftBehind first) q.statements) (hsink ▸ hroom)
    dsimp only
    rw [hsink]
    generalize runStatements (evaluator fuel) (Stmt.shiftAll _ q.statements) m' = o₂ at hlater
    cases o₂ with
    | outOfFuel => exact .unfinished _
    | failed cause m₂ =>
      obtain ⟨more, hmore⟩ := hlater
      dsimp only
      rw [hmore]
      exact .failedLater cause _ more
    | done a m₂ =>
      obtain ⟨more, hmore⟩ := hlater
      dsimp only
      rw [hmore]
      exact .finished _ more

/-- The statements of the second text run on the machine that those of the first have led to, but
for its distances. -/
theorem run_followedBy_of_done (h : ofSource first = .ok p) (q : Program) {fuel : Nat}
    {sink : Sink} (hroomy : sink.Roomy) {clock : Clock} {m : Machine}
    (hm : p.run fuel (.initial sink clock) = .done () m) :
    ∃ m', m'.arena = m.arena ∧ m'.fields = m.fields ∧ m'.sink = m.sink ∧ ∀ more, fuel ≤ more →
      (p.followedBy q (Reading.shiftBehind first)).run more (.initial sink clock) =
        runStatements (evaluator more)
          (Stmt.shiftAll (Reading.shiftBehind first) q.statements) m' := by
  let machine := (Machine.initial sink clock).install
    (p.followedBy q (Reading.shiftBehind first)).distances
  have halike := run_begins h q fuel hroomy clock
  rw [hm] at halike
  generalize ho : runStatements (evaluator fuel) p.statements machine = o' at halike
  cases halike with
  | left _ hexcused => exact hexcused.elim
  | right _ hexcused => exact hexcused.elim
  | @done _ _ _ _ m' _ hstep _ =>
    refine ⟨m', hstep.arena.symm, hstep.fields.symm, hstep.sinks.1.symm, fun more hle ↦ ?_⟩
    have hsame := compares_runStatements (evaluator_compares_of_le hle) p.statements machine
    rw [ho] at hsame
    rw [run_followedBy, Action.bind_apply,
      ← hsame.eq (fun _ hway ↦ nomatch hway) fun _ _ ↦ not_false]

/-- Code that is appended never changes what earlier code did: that is read, and its names are
resolved, as if nothing came behind it, and what is appended runs from where it has come to, unless
it has failed. -/
theorem appending_continues (h : ofSource first = .ok p) (h' : ofSource second = .ok q) :
    ∃ r, ofSource (first ++ "\n" ++ second) = .ok r ∧
      r.statements = p.statements ++
        Stmt.shiftAll ⟨(Reading.ofSource first).idCount, Scan.newlines first.toList + 1⟩
          q.statements ∧
      r.distances.entries = p.distances.entries ++
        (q.distances.later (Reading.ofSource first).idCount).entries ∧
      ∀ fuel capacity clock,
        (Run.ofSource fuel ⟨.empty, capacity⟩ clock first).Continues
          (Run.ofSource fuel ⟨.empty, capacity⟩ clock (first ++ "\n" ++ second)) ∧
        ∀ m, p.run fuel (.initial ⟨.empty, capacity⟩ clock) = .done () m →
          ∃ m', m'.arena = m.arena ∧ m'.fields = m.fields ∧ m'.sink = m.sink ∧
            ∀ more, fuel ≤ more → r.run more (.initial ⟨.empty, capacity⟩ clock) =
              runStatements (evaluator more) (r.statements.drop p.statements.length) m' := by
  refine ⟨_, ofSource_join h h', rfl, rfl, fun fuel capacity clock ↦ ?_⟩
  have hroomy : (Sink.mk .empty capacity).Roomy := fun _ _ ↦ Nat.zero_le _
  refine ⟨continues_ofSource_join h h' fuel hroomy clock, fun m hm ↦ ?_⟩
  rw [show (p.followedBy q (Reading.shiftBehind first)).statements.drop p.statements.length = _ from
    List.drop_left]
  exact run_followedBy_of_done h q hroomy hm

/-- The first text ends with an `if` that may have an `else`, and the second uses its variable. -/
theorem appending_continues_counter : ∃ p q r,
    ofSource "var a = 1; if (a) print a;" = .ok p ∧ ofSource "{ var b = a; print b + b; }" = .ok q ∧
      ofSource ("var a = 1; if (a) print a;" ++ "\n" ++ "{ var b = a; print b + b; }") = .ok r ∧
      r.distances.entries = p.distances.entries ++ (q.distances.later 2).entries ∧
      (Run.ofSource 9 .unlimited .stopped "var a = 1; if (a) print a;").Continues
        (Run.ofSource 9 .unlimited .stopped
          ("var a = 1; if (a) print a;" ++ "\n" ++ "{ var b = a; print b + b; }")) := by
  obtain ⟨p, hp⟩ := exists_of_isOk
    (show (ofSource "var a = 1; if (a) print a;").isOk = true by decide +kernel)
  obtain ⟨q, hq⟩ := exists_of_isOk
    (show (ofSource "{ var b = a; print b + b; }").isOk = true by decide +kernel)
  obtain ⟨r, hr, -, hdistances, hrun⟩ := appending_continues hp hq
  have hcount : (Reading.ofSource "var a = 1; if (a) print a;").idCount = 2 := by decide +kernel
  exact ⟨p, q, r, hp, hq, hr, hcount ▸ hdistances, (hrun 9 none .stopped).1⟩

end Program

end Lox
