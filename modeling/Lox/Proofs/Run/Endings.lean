import Lox.Evaluation

/-!
How the outcome of an action is described: by what holds of its answer and the machine after
it, and by what holds of a failure. Running out of fuel is described by nothing, since more
fuel may lead anywhere. The lemmas take a description through the ways in which actions are
put together; facts about whole evaluations are assembled from them.
-/

set_option autoImplicit false

namespace Lox

variable {α β : Type}

/-- A value that refers to nothing: it has neither methods nor fields. -/
def Value.Plain : Value → Prop
  | .function _ _ | .class_ _ | .object _ => False
  | _ => True

/-- A native function shows the time of a reading of the clock, or answers by its arguments alone,
with a value that is plain. -/
theorem Native.answer_cases (f : Native) (vs : List Value) :
    (f.answer vs = Action.now >>= fun time ↦ Pure.pure (.ok (.number time))) ∨
      ∃ r, f.answer vs = Pure.pure r ∧ ∀ v, r = .ok v → v.Plain := by
  unfold Native.answer
  split
  · exact Or.inl rfl
  · exact Or.inr ⟨_, rfl, fun _ h ↦ by cases h; trivial⟩
  · exact Or.inr ⟨_, rfl, fun _ h ↦ by cases h; trivial⟩
  · exact Or.inr ⟨_, rfl, fun _ h ↦ by cases h; trivial⟩
  · exact Or.inr ⟨_, rfl, nofun⟩

/-- A call of a native function leaves the machine as it is, but for a reading of the clock. -/
theorem Evaluation.callValue_native (sub : Evaluator) (f : Native) (line : Nat) (vs : List Value) :
    (callValue sub (.native f) line vs = Action.now >>= fun time ↦ Pure.pure (.number time)) ∨
      (∃ v, callValue sub (.native f) line vs = Pure.pure v ∧ v.Plain) ∨
        ∃ cause, callValue sub (.native f) line vs = Action.failAt line cause := by
  simp only [callValue]
  rcases f.answer_cases vs with heq | ⟨r, heq, hplain⟩
  · rw [heq]
    exact Or.inl rfl
  · rw [heq]
    cases r with
    | ok v => exact Or.inr (Or.inl ⟨v, rfl, hplain v rfl⟩)
    | error cause => exact Or.inr (Or.inr ⟨cause, rfl⟩)

/-- How an outcome has stopped short: by a failure, or for want of fuel. -/
def Outcome.stop? : Outcome α → Option (Option Failure)
  | .outOfFuel => some none
  | .failed cause _ => some (some cause)
  | .done _ _ => none

/-- The outcome is an answer with `good`, a failure with `bad`, or no end within the fuel. -/
def Outcome.Ends (good : α → Machine → Prop) (bad : Failure → Machine → Prop) : Outcome α → Prop
  | .outOfFuel => True
  | .failed cause m => bad cause m
  | .done a m => good a m

namespace Outcome

variable {good good' : α → Machine → Prop} {bad bad' : Failure → Machine → Prop}

theorem Ends.imp {o : Outcome α} (h : o.Ends good bad) (hgood : ∀ a m, good a m → good' a m)
    (hbad : ∀ cause m, bad cause m → bad' cause m) : o.Ends good' bad' := by
  cases o with
  | outOfFuel => trivial
  | failed cause m => exact hbad cause m h
  | done a m => exact hgood a m h

/-- A description of the answers may be weakened, with what holds of failures left as it is. -/
theorem Ends.weaken {o : Outcome α} (h : o.Ends good bad) (hgood : ∀ a m, good a m → good' a m) :
    o.Ends good' bad :=
  h.imp hgood fun _ _ hcause ↦ hcause

/-- An answer that comes with the machine as it was is described on that machine. -/
theorem Ends.still {o : Outcome α} {m : Machine} {holds : α → Prop}
    (h : o.Ends (fun a m' ↦ m' = m ∧ holds a) bad) (hgood : ∀ a, holds a → good a m) :
    o.Ends good bad := by
  refine h.weaken ?_
  rintro a m' ⟨rfl, ha⟩
  exact hgood a ha

theorem Ends.of_done {o : Outcome α} {a : α} {m : Machine} (h : o.Ends good bad)
    (e : o = .done a m) : good a m := by
  rw [e] at h
  exact h

theorem Ends.of_failed {o : Outcome α} {cause : Failure} {m : Machine} (h : o.Ends good bad)
    (e : o = .failed cause m) : bad cause m := by
  rw [e] at h
  exact h

end Outcome

namespace Action

variable {good : α → Machine → Prop} {bad : Failure → Machine → Prop}

theorem bind_apply (x : Action α) (f : α → Action β) (m : Machine) :
    (x >>= f) m = match x m with
      | .outOfFuel => .outOfFuel
      | .failed cause m => .failed cause m
      | .done a m => f a m :=
  rfl

instance : LawfulMonad Action := LawfulMonad.mk' Action
  (fun x ↦ by
    funext m
    change (x >>= Pure.pure) m = x m
    rw [bind_apply]
    cases x m <;> rfl)
  (fun _ _ ↦ rfl)
  (fun x f g ↦ by
    funext m
    rw [bind_apply, bind_apply, bind_apply]
    cases x m <;> rfl)

theorem pure_apply (a : α) (m : Machine) : (Pure.pure a : Action α) m = .done a m := rfl

/-- Of two actions in a row the second is described on the machines that the first leads to. -/
theorem ends_bind_of_done {good' : β → Machine → Prop} {x : Action α} {f : α → Action β}
    {m : Machine} (h : (x m).Ends good bad)
    (hf : ∀ a m', x m = .done a m' → good a m' → (f a m').Ends good' bad) :
    ((x >>= f) m).Ends good' bad := by
  rw [bind_apply]
  cases hx : x m with
  | outOfFuel => trivial
  | failed cause m' => exact h.of_failed hx
  | done a m' => exact hf a m' hx (h.of_done hx)

theorem ends_bind {good' : β → Machine → Prop} {x : Action α} {f : α → Action β} {m : Machine}
    (h : (x m).Ends good bad) (hf : ∀ a m', good a m' → (f a m').Ends good' bad) :
    ((x >>= f) m).Ends good' bad :=
  ends_bind_of_done h fun a m' _ ↦ hf a m'

/-- After an action that leaves the machine as it is, the next is described on the same machine. -/
theorem ends_bind_still {good : β → Machine → Prop} {x : Action α} {f : α → Action β}
    {m : Machine} {holds : α → Prop} (h : (x m).Ends (fun a m' ↦ m' = m ∧ holds a) bad)
    (hf : ∀ a, holds a → (f a m).Ends good bad) : ((x >>= f) m).Ends good bad := by
  refine ends_bind h ?_
  rintro a m' ⟨rfl, ha⟩
  exact hf a ha

/-- Where the first of two actions in a row stops, both of them stop. -/
theorem stop?_bind {x : Action α} {m : Machine} {way : Option Failure}
    (h : (x m).stop? = some way) (f : α → Action β) : ((x >>= f) m).stop? = some way := by
  rw [bind_apply]
  cases hx : x m with
  | done a m' => simp [hx, Outcome.stop?] at h
  | _ => simpa [hx, Outcome.stop?] using h

theorem stop?_releasing (frame : FrameId) (x : Action α) (m : Machine) :
    (releasing frame x m).stop? = (x m).stop? := by
  unfold releasing
  cases x m <;> rfl

/-- What is described after the release of a frame is described of the machine before it. -/
theorem ends_releasing {frame : FrameId} {x : Action α} {m : Machine}
    (h : (x m).Ends (fun a m' ↦ good a { m' with arena := m'.arena.release frame })
      fun cause m' ↦ bad cause { m' with arena := m'.arena.release frame }) :
    (releasing frame x m).Ends good bad := by
  unfold releasing
  cases hx : x m with
  | outOfFuel => trivial
  | failed cause m' => exact h.of_failed hx
  | done a m' => exact h.of_done hx

end Action

namespace Evaluation

/-- A round is the test, and then the body with the rounds after it. -/
theorem rounds_succ (test : Action Value) (body : Action Flow) (fuel : Nat) :
    rounds test body (fuel + 1) = test >>= fun v ↦
      if v.truthy then body >>= fun flow ↦ match flow with
        | .normal => rounds test body fuel
        | .returned value => Pure.pure (.returned value)
      else Pure.pure .normal := by
  funext m
  rw [Action.bind_apply]
  simp only [rounds]
  cases test m with
  | outOfFuel => rfl
  | failed cause m' => rfl
  | done v m' =>
    dsimp only
    split
    · rw [Action.bind_apply]
      cases body m' with
      | outOfFuel => rfl
      | failed cause m'' => rfl
      | done flow m'' => cases flow <;> rfl
    · rfl

variable {good : Flow → Machine → Prop} {bad : Failure → Machine → Prop}

/-- A loop keeps what one round keeps: `invariant` holds between rounds, and a round that
returns ends the loop. -/
theorem ends_rounds {test : Action Value} {body : Action Flow} {invariant : Machine → Prop}
    {tested : Value → Machine → Prop}
    (htest : ∀ m, invariant m → (test m).Ends tested bad)
    (hbody : ∀ v m, tested v m → v.truthy = true → (body m).Ends
      (fun flow m' ↦ match flow with
        | .normal => invariant m'
        | .returned value => good (.returned value) m') bad)
    (hstop : ∀ v m, tested v m → v.truthy = false → good .normal m) (fuel : Nat) (m : Machine)
    (h : invariant m) : (rounds test body fuel m).Ends good bad := by
  induction fuel generalizing m with
  | zero => trivial
  | succ fuel ih =>
    rw [rounds_succ]
    refine Action.ends_bind (htest m h) fun v m' hv ↦ ?_
    split
    next htruthy =>
      refine Action.ends_bind (hbody v m' hv htruthy) fun flow m'' hflow ↦ ?_
      cases flow with
      | normal => exact ih m'' hflow
      | returned value => exact hflow
    next hfalse => exact hstop v m' hv (by simpa using hfalse)

end Evaluation

end Lox
