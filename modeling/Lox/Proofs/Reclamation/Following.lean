import Lox.Proofs.Reclamation.Similar
import Lox.Proofs.Run.Congruence

/-!
What it means that an action on one machine is followed by an action on a similar one: both run
out of fuel, or both fail for the same reason, or both answer, and the answers are the same up to
the renaming of frames. The machines come out similar again, under a renaming that agrees with
the first one on all frames that were live. Following goes through the ways in which actions are
put together, and the actions on machines follow themselves.
-/

set_option autoImplicit false

namespace Lox

open Referring

/-! ### Failures up to slots -/

def Arena.Fault.unslotted : Arena.Fault → Arena.Fault
  | .dangling _ => .dangling Arena.globals
  | .shortChain _ distance => .shortChain Arena.globals distance
  | .unbound name distance _ => .unbound name distance Arena.globals
  | .unassignable name distance _ => .unassignable name distance Arena.globals
  | .endlessChain _ => .endlessChain Arena.globals

/-- The failure with every slot number in its message set to zero. -/
def Failure.unslotted : Failure → Failure
  | .internal (.frame fault) => .internal (.frame fault.unslotted)
  | cause => cause

variable {α β : Type} [Referring α] [Referring β] {ρ ρ₁ ρ₂ : FrameId → FrameId}
  {m m' m₁ m₁' m₂ m₂' : Machine} {A B : Option Failure → Prop}

/-! ### Stretches of a run -/

namespace Machine

/-- A stretch of a run, and what has become of the renaming on it. -/
structure Leads (ρ : FrameId → FrameId) (m : Machine) (ρ₁ : FrameId → FrameId) (m₁ : Machine) :
    Prop where
  continues : m.arena.Continues m₁.arena
  agree : m.Agree ρ ρ₁
  noted : ∀ k, m.arena.Live k → m₁.origins[k.slot]? = m.origins[k.slot]?

/-- A live frame and its counterpart. -/
structure Points (ρ : FrameId → FrameId) (m : Machine) (env env' : FrameId) : Prop where
  live : m.arena.Live env
  renamed : ρ env = env'

/-- Data that refers to captured frames only, and its counterpart. -/
structure Holds (ρ : FrameId → FrameId) (m : Machine) (a a' : α) : Prop where
  within : Within m.arena.Captured a
  renamed : a' = rename ρ a

theorem Leads.refl (ρ : FrameId → FrameId) (m : Machine) : Leads ρ m ρ m :=
  ⟨Arena.Continues.refl _, fun _ _ ↦ rfl, fun _ _ ↦ rfl⟩

theorem Leads.trans (h : Leads ρ m ρ₁ m₁) (h' : Leads ρ₁ m₁ ρ₂ m₂) : Leads ρ m ρ₂ m₂ :=
  ⟨h.continues.trans h'.continues,
    fun k hk ↦ (h'.agree k (h.continues.live hk)).trans (h.agree k hk),
    fun k hk ↦ (h'.noted k (h.continues.live hk)).trans (h.noted k hk)⟩

theorem Points.later {env env' : FrameId} (h : Points ρ m env env') (hlead : Leads ρ m ρ₁ m₁) :
    Points ρ₁ m₁ env env' :=
  ⟨hlead.continues.live h.live, (hlead.agree env h.live).trans h.renamed⟩

theorem Holds.later {a a' : α} (h : Holds ρ m a a') (hlead : Leads ρ m ρ₁ m₁) :
    Holds ρ₁ m₁ a a' :=
  ⟨within_imp h.within fun _ ↦ hlead.continues.captured,
    h.renamed.trans (hlead.agree.rename_eq h.within).symm⟩

theorem Similar.points_globals (h : Similar ρ m m') : Points ρ m Arena.globals Arena.globals :=
  ⟨h.tidy.sound.captured_globals.live, h.globals⟩

/-- To open a frame takes nothing from what is held. -/
theorem Holds.pushed {a a' : α} (h : Holds ρ m a a') (htidy : m.Tidy) (hagree : m.Agree ρ ρ₁)
    (origin : Origin) (enclosing : FrameId) : Holds ρ₁ (m.pushed origin enclosing) a a' :=
  ⟨within_imp h.within fun k hk ↦ by
      obtain ⟨f, hf, hcaptured⟩ := hk
      exact ⟨f, (htidy.sound.filed.frame?_push_of_live enclosing ⟨f, hf⟩).trans hf, hcaptured⟩,
    h.renamed.trans (hagree.rename_eq h.within).symm⟩

/-- The frame that both machines have just opened. -/
theorem Similar.points_pushed (h : Similar ρ m m') (origin : Origin) (enclosing : FrameId) :
    Points (Similar.extended ρ m m') (m.pushed origin enclosing) m.arena.nextFrame
      m'.arena.nextFrame :=
  ⟨(h.tidy.sound.filed.live_push enclosing).2 (Or.inl rfl), if_pos rfl⟩

end Machine

open Machine

namespace Outcome

/-- How an outcome is followed by another one, of runs that have begun at similar machines: they
are the same but for the frames, unless the first one has stopped in one of the ways `A`, or the
second one in one of the ways `B`. -/
inductive Follows (A B : Option Failure → Prop) (ρ : FrameId → FrameId) (m : Machine) :
    Outcome α → Outcome α → Prop
  | outOfFuel : Follows A B ρ m .outOfFuel .outOfFuel
  | failed {cause cause' : Failure} {ρ₁ : FrameId → FrameId} {m₁ m₁' : Machine}
    (same : cause.unslotted = cause'.unslotted) (leads : Leads ρ m ρ₁ m₁)
    (similar : Similar ρ₁ m₁ m₁') : Follows A B ρ m (.failed cause m₁) (.failed cause' m₁')
  | done {a a' : α} {ρ₁ : FrameId → FrameId} {m₁ m₁' : Machine} (leads : Leads ρ m ρ₁ m₁)
    (similar : Similar ρ₁ m₁ m₁') (holds : Holds ρ₁ m₁ a a') :
    Follows A B ρ m (.done a m₁) (.done a' m₁')
  | left {o o' : Outcome α} {way : Option Failure} (stops : o.stop? = some way) (allowed : A way) :
    Follows A B ρ m o o'
  | right {o o' : Outcome α} {way : Option Failure} (stops : o'.stop? = some way)
    (allowed : B way) : Follows A B ρ m o o'

/-- The outcome with a frame released at its end. -/
def released (frame : FrameId) : Outcome α → Outcome α
  | .outOfFuel => .outOfFuel
  | .failed cause m => .failed cause { m with arena := m.arena.release frame }
  | .done a m => .done a { m with arena := m.arena.release frame }

theorem Follows.after {o o' : Outcome α} (h : o.Follows A B ρ₁ m₁ o') (hlead : Leads ρ m ρ₁ m₁) :
    o.Follows A B ρ m o' := by
  cases h with
  | outOfFuel => exact .outOfFuel
  | failed hcause hrest hsim => exact .failed hcause (hlead.trans hrest) hsim
  | done hrest hsim ha => exact .done (hlead.trans hrest) hsim ha
  | left hstop hallowed => exact .left hstop hallowed
  | right hstop hallowed => exact .right hstop hallowed

omit [Referring α] in
theorem stop?_released (o : Outcome α) (frame : FrameId) : (o.released frame).stop? = o.stop? := by
  cases o <;> rfl

/-- A frame that was opened at the start may be released at the end. -/
theorem Follows.released {enclosing : FrameId} (h : m.Tidy) (henclosing : m.arena.Live enclosing)
    {origin : Origin} {o o' : Outcome α} (id' : FrameId) (hagree : m.Agree ρ ρ₁)
    (ho : o.Follows A B ρ₁ (m.pushed origin enclosing) o') :
    (o.released m.arena.nextFrame).Follows A B ρ m (o'.released id') := by
  have hend {ρ₂ : FrameId → FrameId} {m₂ m₂' : Machine}
      (hlead : Leads ρ₁ (m.pushed origin enclosing) ρ₂ m₂) (hsim : Similar ρ₂ m₂ m₂') :
      Leads ρ m ρ₂ { m₂ with arena := m₂.arena.release m.arena.nextFrame } ∧
        Similar ρ₂ { m₂ with arena := m₂.arena.release m.arena.nextFrame }
          { m₂' with arena := m₂'.arena.release id' } := by
    have hstill (k : FrameId) (hk : m.arena.Live k) : (m.pushed origin enclosing).arena.Live k :=
      (h.sound.filed.live_push enclosing).2 (Or.inr hk)
    exact ⟨⟨h.sound.filed.continues_release_opened hsim.tidy.releases hlead.continues,
      fun k hk ↦ (hlead.agree k (hstill k hk)).trans (hagree k hk),
      fun k hk ↦ (hlead.noted k (hstill k hk)).trans (h.origins_pushed hk origin enclosing)⟩,
      hsim.release (h.sound.release_opened hsim.tidy.sound henclosing hlead.continues) id'⟩
  cases ho with
  | outOfFuel => exact .outOfFuel
  | failed hcause hlead hsim =>
    obtain ⟨hleads, hsimilar⟩ := hend hlead hsim
    exact .failed hcause hleads hsimilar
  | done hlead hsim ha =>
    obtain ⟨hleads, hsimilar⟩ := hend hlead hsim
    exact .done hleads hsimilar
      ⟨within_imp ha.within fun k hk ↦ Arena.Captured.release hk m.arena.nextFrame, ha.renamed⟩
  | left hstop hallowed => exact .left ((stop?_released _ _).trans hstop) hallowed
  | right hstop hallowed => exact .right ((stop?_released _ _).trans hstop) hallowed

end Outcome

namespace Action

/-! ### Putting actions together -/

omit [Referring α] in
theorem releasing_apply (frame : FrameId) (x : Action α) (m : Machine) :
    releasing frame x m = (x m).released frame := by
  unfold releasing
  cases x m <;> rfl

theorem follows_pure {a a' : α} (h : Similar ρ m m') (ha : Holds ρ m a a') :
    ((Pure.pure a : Action α) m).Follows A B ρ m ((Pure.pure a' : Action α) m') :=
  .done (Leads.refl ρ m) h ha

theorem follows_fail {cause cause' : Failure} (h : Similar ρ m m')
    (hcause : cause.unslotted = cause'.unslotted) :
    ((fail cause : Action α) m).Follows A B ρ m ((fail cause' : Action α) m') :=
  .failed hcause (Leads.refl ρ m) h

/-- The second action begins at a machine and an answer that the first one has ended with. -/
theorem follows_bind_of_done {x x' : Action α} {f f' : α → Action β}
    (hx : (x m).Follows A B ρ m (x' m'))
    (hf : ∀ ρ₁ m₁ m₁' a a', x m = .done a m₁ → Leads ρ m ρ₁ m₁ → Similar ρ₁ m₁ m₁' →
      Holds ρ₁ m₁ a a' → (f a m₁).Follows A B ρ₁ m₁ (f' a' m₁')) :
    ((x >>= f) m).Follows A B ρ m ((x' >>= f') m') := by
  rw [bind_apply, bind_apply]
  generalize ho : x m = o at hx hf
  generalize x' m' = o' at hx
  cases hx with
  | outOfFuel => exact .outOfFuel
  | failed hcause hlead hsim => exact .failed hcause hlead hsim
  | done hlead hsim ha => exact (hf _ _ _ _ _ rfl hlead hsim ha).after hlead
  | left hstop hallowed =>
    cases o with
    | done a m₁ => cases hstop
    | _ => exact .left hstop hallowed
  | right hstop hallowed =>
    cases o' with
    | done a m₁ => cases hstop
    | _ => exact .right hstop hallowed

theorem follows_bind {x x' : Action α} {f f' : α → Action β}
    (hx : (x m).Follows A B ρ m (x' m'))
    (hf : ∀ ρ₁ m₁ m₁' a a', Leads ρ m ρ₁ m₁ → Similar ρ₁ m₁ m₁' → Holds ρ₁ m₁ a a' →
      (f a m₁).Follows A B ρ₁ m₁ (f' a' m₁')) :
    ((x >>= f) m).Follows A B ρ m ((x' >>= f') m') :=
  follows_bind_of_done hx fun ρ₁ m₁ m₁' a a' _ ↦ hf ρ₁ m₁ m₁' a a'

/-- What is done within a frame of its own, which is released at the end. -/
theorem follows_within {enclosing enclosing' : FrameId} (h : Similar ρ m m')
    (henv : Points ρ m enclosing enclosing') (origin : Origin) {x x' : FrameId → Action α}
    (hx : ∀ ρ₁ frame frame', m.Agree ρ ρ₁ →
      Similar ρ₁ (m.pushed origin enclosing) (m'.pushed origin enclosing') →
      Points ρ₁ (m.pushed origin enclosing) frame frame' →
      (x frame (m.pushed origin enclosing)).Follows A B ρ₁ (m.pushed origin enclosing)
        (x' frame' (m'.pushed origin enclosing'))) :
    ((push origin enclosing >>= fun frame ↦ releasing frame (x frame)) m).Follows A B ρ m
      ((push origin enclosing' >>= fun frame ↦ releasing frame (x' frame)) m') := by
  obtain ⟨hlive, rfl⟩ := henv
  change (releasing _ _ (m.pushed origin enclosing)).Follows A B ρ m
    (releasing _ _ (m'.pushed origin (ρ enclosing)))
  rw [releasing_apply, releasing_apply]
  exact Outcome.Follows.released h.tidy hlive _ h.agree_extended
    (hx _ _ _ h.agree_extended (h.pushed hlive origin) (h.points_pushed origin enclosing))

/-! ### Actions on machines -/

theorem define_eq {frame : FrameId} {f : Frame Value} (hf : m.arena.frame? frame = some f)
    (name : String) (v : Value) :
    define frame name v m = .done () { m with arena := m.arena.bind frame f name v } := by
  simp [define, Arena.frame, hf]

theorem follows_define {frame frame' : FrameId} {v v' : Value} (h : Similar ρ m m')
    (hframe : Points ρ m frame frame') (name : String) (hv : Holds ρ m v v') :
    (define frame name v m).Follows A B ρ m (define frame' name v' m') := by
  obtain ⟨⟨f, hf⟩, rfl⟩ := hframe
  obtain ⟨hwithin, rfl⟩ := hv
  obtain ⟨c, hc⟩ := h.frames frame f hf
  rw [define_eq hf, define_eq hc]
  exact .done ⟨Arena.continues_bind name v hf, fun _ _ ↦ rfl, fun _ _ ↦ rfl⟩
    (h.bind hf hc name hwithin) ⟨trivial, rfl⟩

theorem follows_capture {frame frame' : FrameId} (h : Similar ρ m m')
    (hframe : Points ρ m frame frame') :
    (capture frame m).Follows A B ρ m (capture frame' m') := by
  obtain ⟨hlive, rfl⟩ := hframe
  exact .done ⟨Arena.continues_capture _ _, fun _ _ ↦ rfl, fun _ _ ↦ rfl⟩ (h.capture hlive)
    ⟨trivial, rfl⟩

theorem follows_distance? (h : Similar ρ m m') (id : NodeId) :
    (distance? id m).Follows A B ρ m (distance? id m') := by
  unfold distance?
  rw [h.distances]
  exact .done (Leads.refl ρ m) h ⟨fun _ _ ↦ trivial, Option.map_id'.symm⟩

theorem follows_fresh (h : Similar ρ m m') : (fresh m).Follows A B ρ m (fresh m') := by
  unfold fresh
  rw [h.nextId]
  exact .done ⟨Arena.Continues.refl _, fun _ _ ↦ rfl, fun _ _ ↦ rfl⟩
    { h with tidy := { h.tidy with }, nextId := rfl } ⟨trivial, rfl⟩

theorem follows_now (h : Similar ρ m m') : (now m).Follows A B ρ m (now m') := by
  unfold now
  rw [h.clock]
  exact .done ⟨Arena.Continues.refl _, fun _ _ ↦ rfl, fun _ _ ↦ rfl⟩
    { h with tidy := { h.tidy with }, clock := rfl } ⟨trivial, rfl⟩

theorem follows_write (h : Similar ρ m m') (text : String) :
    (write text m).Follows A B ρ m (write text m') := by
  have hsim : Similar ρ { m with sink := (m.sink.write text).2 }
      { m' with sink := (m.sink.write text).2 } :=
    { h with tidy := { h.tidy with }, sink := rfl }
  have hlead : Leads ρ m ρ { m with sink := (m.sink.write text).2 } :=
    ⟨Arena.Continues.refl _, fun _ _ ↦ rfl, fun _ _ ↦ rfl⟩
  unfold write
  rw [h.sink]
  dsimp only
  split
  · exact .done hlead hsim ⟨trivial, rfl⟩
  · exact .failed rfl hlead hsim

end Action

end Lox
