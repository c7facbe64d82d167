import Lox.Proofs.Arena.Lifetime
import Lox.Proofs.Reclamation.Renaming

/-!
Machines that differ only in where their frames are. A machine that releases frames is compared
with one that retains them all: `ρ` says in which slot of the second one the frame of a slot of
the first one stands. Of a slot without a frame it says nothing, so it can be changed there when
a slot is used again. The first machine has to be tidy: whatever its frames and its objects refer
to is captured, so that nothing that can still be reached is ever released.
-/

set_option autoImplicit false

namespace Lox

open Referring

/-- Every frame that is referred to, from a frame or from an object, is there for good. -/
structure Machine.Tidy (m : Machine) : Prop where
  sound : m.arena.Sound
  releases : m.arena.retains = false
  noted : m.origins.size = m.arena.slots.size
  frames : ∀ k f, m.arena.frame? k = some f → Within m.arena.Captured f.values
  fields : ∀ table ∈ m.fields, Within m.arena.Captured table

structure Machine.Similar (ρ : FrameId → FrameId) (m m' : Machine) : Prop where
  tidy : m.Tidy
  retains : m'.arena.retains = true
  full : m'.arena.free = []
  noted : m'.origins.size = m'.arena.slots.size
  apart : ∀ k l, m.arena.Live k → m.arena.Live l → ρ k = ρ l → k = l
  globals : ρ Arena.globals = Arena.globals
  frames : ∀ k f, m.arena.frame? k = some f → ∃ captured,
    m'.arena.frame? (ρ k) = some ⟨rename ρ f.values, f.enclosing.map ρ, captured⟩
  origins : ∀ k, m.arena.Live k → m'.origins[(ρ k).slot]? = m.origins[k.slot]?
  fields : m'.fields = m.fields.map (rename ρ)
  distances : m'.distances = m.distances
  nextId : m'.nextId = m.nextId
  sink : m'.sink = m.sink
  clock : m'.clock = m.clock

/-- Renamings that agree on the live frames. -/
def Machine.Agree (m : Machine) (ρ ρ' : FrameId → FrameId) : Prop :=
  ∀ k, m.arena.Live k → ρ' k = ρ k

namespace Machine

variable {ρ ρ' : FrameId → FrameId} {m m' : Machine} {id k enclosing : FrameId}
  {f f' : Frame Value} {α : Type} [Referring α]

theorem Agree.rename_eq (h : m.Agree ρ ρ') {a : α} (ha : Within m.arena.Captured a) :
    rename ρ' a = rename ρ a :=
  rename_congr ha fun k hk ↦ h k hk.live

/-! ### Tidy machines -/

theorem Tidy.of_arena (h : m.Tidy) {a : Arena Value} (hsound : a.Sound)
    (hretains : a.retains = false) (hsize : a.slots.size = m.arena.slots.size)
    (hcaptured : ∀ k, m.arena.Captured k → a.Captured k)
    (hframes : ∀ k f, a.frame? k = some f → Within a.Captured f.values) :
    Tidy { m with arena := a } :=
  ⟨hsound, hretains, h.noted.trans hsize.symm, hframes,
    fun table htable ↦ within_imp (h.fields table htable) hcaptured⟩

theorem Tidy.bind (h : m.Tidy) (hf : m.arena.frame? id = some f) (name : String) {v : Value}
    (hv : Within m.arena.Captured v) : Tidy { m with arena := m.arena.bind id f name v } := by
  have hcaptured (k : FrameId) (hk : m.arena.Captured k) :
      (m.arena.bind id f name v).Captured k := (Arena.continues_bind name v hf).captured hk
  refine h.of_arena (h.sound.bind hf name v) h.releases (by simp [Arena.bind, Arena.setFrame])
    hcaptured fun k g hk ↦ ?_
  rw [Arena.frame?_bind name v hf] at hk
  split at hk
  · cases hk
    exact within_imp (Bindings.All.insert (h.frames id f hf) hv) hcaptured
  · exact within_imp (h.frames k g hk) hcaptured

theorem Tidy.capture (h : m.Tidy) (hid : m.arena.Live id) :
    Tidy { m with arena := m.arena.capture id } := by
  obtain ⟨-, hsize, hretains⟩ := Arena.free_captureFrom m.arena.slots.size m.arena id
  obtain ⟨marked, hmarked⟩ := Arena.frame?_capture m.arena id
  have hcaptured (k : FrameId) (hk : m.arena.Captured k) : (m.arena.capture id).Captured k :=
    (Arena.continues_capture m.arena id).captured hk
  refine h.of_arena (h.sound.capture hid) (hretains.trans h.releases) hsize hcaptured
    fun k g hk ↦ ?_
  rw [hmarked] at hk
  obtain ⟨g', hg', rfl⟩ := Option.map_eq_some_iff.1 hk
  exact within_imp (h.frames k g' hg') hcaptured

theorem Tidy.release (h : m.Tidy) (hsound : (m.arena.release id).Sound) :
    Tidy { m with arena := m.arena.release id } := by
  have hcaptured (k : FrameId) (hk : m.arena.Captured k) : (m.arena.release id).Captured k :=
    hk.release id
  refine h.of_arena hsound ((Arena.retains_release _ _).trans h.releases) (Arena.size_release _ _)
    hcaptured fun k g hk ↦ ?_
  rw [Arena.frame?_release] at hk
  split at hk
  · cases hk
  · exact within_imp (h.frames k g hk) hcaptured

/-- A machine in which a frame has just been opened. -/
def pushed (m : Machine) (origin : Origin) (enclosing : FrameId) : Machine :=
  { m with
    arena := m.arena.push enclosing
    origins := noteOrigin m.origins m.arena.nextFrame origin }

theorem size_noteOrigin (origins : Array Origin) (a : Arena Value) (origin : Origin)
    (h : origins.size = a.slots.size) (hfree : ∀ id ∈ a.free, id.slot < a.slots.size)
    (enclosing : FrameId) :
    (noteOrigin origins a.nextFrame origin).size = (a.push enclosing).slots.size := by
  unfold noteOrigin Arena.nextFrame Arena.push
  cases hfirst : a.free with
  | nil => simp [h]
  | cons first rest =>
    have hlt : first.slot < origins.size := h ▸ hfree first (by simp [hfirst])
    dsimp only
    rw [if_pos hlt, Array.size_setIfInBounds, Array.size_setIfInBounds, h]

theorem getElem?_noteOrigin (origins : Array Origin) (a : Arena Value) (origin : Origin)
    (h : origins.size = a.slots.size) (hfree : ∀ id ∈ a.free, id.slot < a.slots.size)
    (k : FrameId) :
    (noteOrigin origins a.nextFrame origin)[k.slot]? =
      if k = a.nextFrame then some origin else origins[k.slot]? := by
  have hne (hk : k ≠ a.nextFrame) : a.nextFrame.slot ≠ k.slot := Arena.slot_ne hk
  unfold noteOrigin
  split
  next hlt =>
    rw [Array.getElem?_setIfInBounds]
    by_cases heq : k = a.nextFrame
    · simp [heq, hlt]
    · simp [heq, hne heq]
  next hge =>
    have hnext : a.nextFrame.slot = origins.size := by
      unfold Arena.nextFrame at hge ⊢
      cases hfirst : a.free with
      | nil => exact h.symm
      | cons first rest =>
        simp only [hfirst] at hge
        exact absurd (h ▸ hfree first (by simp [hfirst])) hge
    rw [Array.getElem?_push]
    by_cases heq : k = a.nextFrame
    · simp [heq, hnext]
    · have := hne heq
      rw [hnext] at this
      simp [heq, Ne.symm this]

theorem Tidy.free_lt (h : m.Tidy) (id : FrameId) (hid : id ∈ m.arena.free) :
    id.slot < m.arena.slots.size :=
  ((h.sound.mem_free id).1 hid).1

/-- What live frames were made for stays noted when another one is opened. -/
theorem Tidy.origins_pushed (h : m.Tidy) (hk : m.arena.Live k) (origin : Origin)
    (enclosing : FrameId) : (m.pushed origin enclosing).origins[k.slot]? = m.origins[k.slot]? := by
  refine (getElem?_noteOrigin _ _ _ h.noted h.free_lt k).trans (if_neg ?_)
  rintro rfl
  exact h.sound.filed.not_live_nextFrame hk

theorem Tidy.pushed (h : m.Tidy) (hid : m.arena.Live enclosing) (origin : Origin) :
    (m.pushed origin enclosing).Tidy := by
  have hcaptured (k : FrameId) (hk : m.arena.Captured k) :
      (m.arena.push enclosing).Captured k := by
    obtain ⟨g, hg, hc⟩ := hk
    exact ⟨g, (h.sound.filed.frame?_push_of_live enclosing ⟨g, hg⟩).trans hg, hc⟩
  refine ⟨h.sound.push hid, (Arena.retains_push m.arena enclosing).trans h.releases,
    size_noteOrigin _ _ _ h.noted h.free_lt _, fun k g hk ↦ ?_,
    fun table htable ↦ within_imp (h.fields table htable) hcaptured⟩
  change (m.arena.push enclosing).frame? k = some g at hk
  rw [h.sound.filed.frame?_push] at hk
  split at hk
  · cases hk
    exact Bindings.all_empty _
  · exact within_imp (h.frames k g hk) hcaptured

/-! ### Similar machines -/

namespace Similar

theorem live (h : Similar ρ m m') (hk : m.arena.Live k) : m'.arena.Live (ρ k) := by
  obtain ⟨f, hf⟩ := hk
  obtain ⟨c, hc⟩ := h.frames k f hf
  exact ⟨_, hc⟩

/-- Where no frame is, a renaming may be changed. -/
theorem of_agree (h : Similar ρ m m') (hagree : m.Agree ρ ρ') : Similar ρ' m m' where
  tidy := h.tidy
  retains := h.retains
  full := h.full
  noted := h.noted
  apart k l hk hl heq := h.apart k l hk hl (by rw [← hagree k hk, ← hagree l hl, heq])
  globals := (hagree _ h.tidy.sound.captured_globals.live).trans h.globals
  frames k f hk := by
    obtain ⟨c, hc⟩ := h.frames k f hk
    refine ⟨c, ?_⟩
    have houter : f.enclosing.map ρ' = f.enclosing.map ρ := by
      cases henclosing : f.enclosing with
      | none => rfl
      | some outer => exact congrArg some (hagree _ (h.tidy.sound.linked k f outer hk henclosing))
    rw [hagree k ⟨f, hk⟩, hc, hagree.rename_eq (h.tidy.frames k f hk), houter]
  origins k hk := by rw [hagree k hk]; exact h.origins k hk
  fields := by
    rw [h.fields]
    exact Array.map_congr_left fun table htable ↦
      (hagree.rename_eq (h.tidy.fields table htable)).symm
  distances := h.distances
  nextId := h.nextId
  sink := h.sink
  clock := h.clock

theorem bind (h : Similar ρ m m') (hf : m.arena.frame? id = some f)
    (hf' : m'.arena.frame? (ρ id) = some f') (name : String) {v : Value}
    (hv : Within m.arena.Captured v) :
    Similar ρ { m with arena := m.arena.bind id f name v }
      { m' with arena := m'.arena.bind (ρ id) f' name (rename ρ v) } := by
  have hframe := Arena.frame?_bind name v hf
  have hframe' := Arena.frame?_bind name (rename ρ v) hf'
  have hlive (k : FrameId) (hk : (m.arena.bind id f name v).Live k) : m.arena.Live k := by
    obtain ⟨g, hg⟩ := hk
    rw [hframe] at hg
    split at hg
    next heq => exact heq ▸ ⟨f, hf⟩
    next => exact ⟨g, hg⟩
  exact {
    tidy := h.tidy.bind hf name hv
    retains := h.retains
    full := h.full
    noted := h.noted.trans (by simp [Arena.bind, Arena.setFrame])
    apart := fun k l hk hl ↦ h.apart k l (hlive k hk) (hlive l hl)
    globals := h.globals
    frames := fun k g hk ↦ by
      change (m.arena.bind id f name v).frame? k = some g at hk
      change ∃ c, (m'.arena.bind (ρ id) f' name (rename ρ v)).frame? (ρ k) = _
      rw [hframe] at hk
      rw [hframe']
      split at hk
      next heq =>
        cases hk
        obtain ⟨c, hc⟩ := h.frames id f hf
        rw [hf'] at hc
        cases hc
        refine ⟨c, ?_⟩
        rw [if_pos (congrArg ρ heq)]
        exact congrArg some (congrArg (Frame.mk · _ c) (Bindings.map_insert ..).symm)
      next heq =>
        rw [if_neg fun hsame ↦ heq (h.apart k id ⟨g, hk⟩ ⟨f, hf⟩ hsame)]
        exact h.frames k g hk
    origins := fun k hk ↦ h.origins k (hlive k hk)
    fields := h.fields
    distances := h.distances
    nextId := h.nextId
    sink := h.sink
    clock := h.clock }

theorem capture (h : Similar ρ m m') (hid : m.arena.Live id) :
    Similar ρ { m with arena := m.arena.capture id }
      { m' with arena := m'.arena.capture (ρ id) } := by
  obtain ⟨marked, hmarked⟩ := Arena.frame?_capture m.arena id
  obtain ⟨marked', hmarked'⟩ := Arena.frame?_capture m'.arena (ρ id)
  obtain ⟨hfree, hsize, hretains⟩ :=
    Arena.free_captureFrom m'.arena.slots.size m'.arena (ρ id)
  have hlive (k : FrameId) (hk : (m.arena.capture id).Live k) : m.arena.Live k := by
    obtain ⟨g, hg⟩ := hk
    rw [hmarked] at hg
    obtain ⟨g', hg', -⟩ := Option.map_eq_some_iff.1 hg
    exact ⟨g', hg'⟩
  exact {
    tidy := h.tidy.capture hid
    retains := hretains.trans h.retains
    full := hfree.trans h.full
    noted := h.noted.trans hsize.symm
    apart := fun k l hk hl ↦ h.apart k l (hlive k hk) (hlive l hl)
    globals := h.globals
    frames := fun k g hk ↦ by
      change (m.arena.capture id).frame? k = some g at hk
      change ∃ c, (m'.arena.capture (ρ id)).frame? (ρ k) = _
      rw [hmarked] at hk
      obtain ⟨g', hg', rfl⟩ := Option.map_eq_some_iff.1 hk
      obtain ⟨c, hc⟩ := h.frames k g' hg'
      exact ⟨c || marked' (ρ k), by rw [hmarked', hc, Option.map_some]⟩
    origins := fun k hk ↦ h.origins k (hlive k hk)
    fields := h.fields
    distances := h.distances
    nextId := h.nextId
    sink := h.sink
    clock := h.clock }

/-- What one machine releases the other one retains. -/
theorem release (h : Similar ρ m m') (hsound : (m.arena.release id).Sound) (id' : FrameId) :
    Similar ρ { m with arena := m.arena.release id }
      { m' with arena := m'.arena.release id' } := by
  have hframe (k : FrameId) (g : Frame Value) (hk : (m.arena.release id).frame? k = some g) :
      m.arena.frame? k = some g := by
    rw [Arena.frame?_release] at hk
    split at hk
    · cases hk
    · exact hk
  have hlive (k : FrameId) (hk : (m.arena.release id).Live k) : m.arena.Live k := by
    obtain ⟨g, hg⟩ := hk
    exact ⟨g, hframe k g hg⟩
  rw [Arena.release_of_retains h.retains]
  exact {
    tidy := h.tidy.release hsound
    retains := h.retains
    full := h.full
    noted := h.noted
    apart := fun k l hk hl ↦ h.apart k l (hlive k hk) (hlive l hl)
    globals := h.globals
    frames := fun k g hk ↦ h.frames k g (hframe k g hk)
    origins := fun k hk ↦ h.origins k (hlive k hk)
    fields := h.fields
    distances := h.distances
    nextId := h.nextId
    sink := h.sink
    clock := h.clock }

/-- The renaming after both machines have opened a frame. -/
def extended (ρ : FrameId → FrameId) (m m' : Machine) : FrameId → FrameId :=
  fun k ↦ if k = m.arena.nextFrame then m'.arena.nextFrame else ρ k

theorem agree_extended (h : Similar ρ m m') : m.Agree ρ (extended ρ m m') := by
  intro k hk
  unfold extended
  rw [if_neg]
  rintro rfl
  exact h.tidy.sound.filed.not_live_nextFrame hk

theorem pushed (h : Similar ρ m m') (hid : m.arena.Live enclosing) (origin : Origin) :
    Similar (extended ρ m m') (m.pushed origin enclosing) (m'.pushed origin (ρ enclosing)) := by
  have hagree := h.agree_extended
  have hsame := h.of_agree hagree
  have hnext : extended ρ m m' m.arena.nextFrame = m'.arena.nextFrame := by
    unfold extended
    exact if_pos rfl
  have hdead' := Arena.not_live_nextFrame_of_full h.full
  have hother (k : FrameId) (hk : m.arena.Live k) :
      extended ρ m m' k ≠ m'.arena.nextFrame := fun heq ↦ hdead' (heq ▸ hsame.live hk)
  have hfree' := Arena.free_lt_of_full h.full
  have hlive (k : FrameId) (hk : (m.arena.push enclosing).Live k) :
      k = m.arena.nextFrame ∨ m.arena.Live k := (h.tidy.sound.filed.live_push enclosing).1 hk
  have hframe' := Arena.frame?_push_of_full h.full (ρ enclosing)
  exact {
    tidy := h.tidy.pushed hid origin
    retains := (Arena.retains_push m'.arena (ρ enclosing)).trans h.retains
    full := Arena.free_push_of_full h.full (ρ enclosing)
    noted := size_noteOrigin _ _ _ h.noted hfree' _
    apart := fun k l hk hl heq ↦ by
      rcases hlive k hk with rfl | hk
      · rcases hlive l hl with rfl | hl
        · rfl
        · exact absurd (heq.symm.trans hnext) (hother l hl)
      · rcases hlive l hl with rfl | hl
        · exact absurd (heq.trans hnext) (hother k hk)
        · exact hsame.apart k l hk hl heq
    globals := hsame.globals
    frames := fun k g hk ↦ by
      change (m.arena.push enclosing).frame? k = some g at hk
      change ∃ c, (m'.arena.push (ρ enclosing)).frame? (extended ρ m m' k) = _
      rw [h.tidy.sound.filed.frame?_push] at hk
      rw [hframe']
      split at hk
      next heq =>
        cases hk
        refine ⟨false, ?_⟩
        rw [heq, hnext, if_pos rfl]
        exact congrArg (fun outer ↦ some (Frame.mk _ (some outer) false)) (hagree _ hid).symm
      next heq =>
        rw [if_neg (hother k ⟨g, hk⟩)]
        exact hsame.frames k g hk
    origins := fun k hk ↦ by
      change (noteOrigin m'.origins m'.arena.nextFrame origin)[(extended ρ m m' k).slot]? =
        (noteOrigin m.origins m.arena.nextFrame origin)[k.slot]?
      rw [getElem?_noteOrigin _ _ _ h.noted hfree',
        getElem?_noteOrigin _ _ _ h.tidy.noted h.tidy.free_lt]
      rcases hlive k hk with rfl | hlive
      · rw [if_pos hnext, if_pos rfl]
      · rw [if_neg (hother k hlive), if_neg]
        · exact hsame.origins k hlive
        · rintro rfl
          exact h.tidy.sound.filed.not_live_nextFrame hlive
    fields := hsame.fields
    distances := h.distances
    nextId := h.nextId
    sink := h.sink
    clock := h.clock }

end Similar

end Machine

end Lox
