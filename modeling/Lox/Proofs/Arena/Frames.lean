import Lox.Arena

/-!
What each operation on an arena does to the frames in it, said of the live frame in every slot.
An arena is filed if its free slots are its empty ones; every operation keeps it so. It is sound if
besides the global frame stands, every frame that another one lies in is live, and captured frames
lie in captured frames. Opening a frame and capturing keep an arena sound, and so does releasing a
frame that no other one lies in.
-/

set_option autoImplicit false

namespace Lox.Arena

variable {α : Type} {a : Arena α} {id k : FrameId} {f : Frame α}

/-! ### One operation at a time -/

theorem slot_ne (h : k ≠ id) : id.slot ≠ k.slot := by
  intro hslot
  cases k
  cases id
  exact h (congrArg FrameId.mk hslot.symm)

theorem slot_ne_zero (h : k ≠ globals) : k.slot ≠ 0 := Ne.symm (slot_ne h)

theorem frame?_eq_some_iff : a.frame? id = some f ↔ a.slots[id.slot]? = some (some f) := by
  unfold frame?
  rw [Option.join_eq_some_iff]

theorem slot_lt_of_frame? (h : a.frame? id = some f) : id.slot < a.slots.size := by
  rw [frame?_eq_some_iff] at h
  exact (Array.getElem?_eq_some_iff.1 h).1

theorem frame?_setFrame (g : Frame α) (h : a.frame? id = some f) (k : FrameId) :
    (a.setFrame id g).frame? k = if k = id then some g else a.frame? k := by
  have hlt := slot_lt_of_frame? h
  unfold setFrame frame?
  rw [Array.getElem?_setIfInBounds]
  by_cases heq : k = id
  · simp [heq, hlt]
  · simp [heq, slot_ne heq]

theorem frame?_bind (name : String) (value : α) (h : a.frame? id = some f) (k : FrameId) :
    (a.bind id f name value).frame? k =
      if k = id then some { f with values := f.values.insert name value } else a.frame? k :=
  frame?_setFrame _ h k

theorem frame?_release (id k : FrameId) :
    (a.release id).frame? k =
      if k = id ∧ a.retains = false ∧ ∃ f, a.frame? id = some f ∧ f.captured = false then none
      else a.frame? k := by
  unfold release
  cases hid : a.frame? id with
  | none => simp
  | some f =>
    by_cases hkeep : (f.captured || a.retains) = true
    · have hnot : ¬(a.retains = false ∧ f.captured = false) := by
        rintro ⟨hretains, hcaptured⟩
        simp [hretains, hcaptured] at hkeep
      simp only [hkeep, if_true]
      rw [if_neg]
      rintro ⟨-, hretains, g, hg, hcaptured⟩
      cases hg
      exact hnot ⟨hretains, hcaptured⟩
    · obtain ⟨hcaptured, hretains⟩ : f.captured = false ∧ a.retains = false := by
        simpa [Bool.or_eq_true, not_or] using hkeep
      have hlt := slot_lt_of_frame? hid
      dsimp only
      rw [if_neg hkeep]
      unfold frame?
      rw [Array.getElem?_setIfInBounds]
      by_cases heq : k = id
      · simp [heq, hlt, hretains, hcaptured]
      · simp [heq, slot_ne heq]

/-- What is captured, or empty, or in an arena that retains, is not released. -/
theorem release_of_kept
    (h : ¬(a.retains = false ∧ ∃ f, a.frame? id = some f ∧ f.captured = false)) :
    a.release id = a := by
  unfold Arena.release
  cases hf : a.frame? id with
  | none => rfl
  | some f =>
    cases hcaptured : f.captured with
    | true => simp [hcaptured]
    | false =>
      cases hretains : a.retains with
      | true => simp
      | false => exact absurd ⟨hretains, f, hf, hcaptured⟩ h

theorem release_of_retains (h : a.retains = true) (id : FrameId) : a.release id = a :=
  release_of_kept fun hloose ↦ Bool.noConfusion (hloose.1.symm.trans h)

theorem size_release (a : Arena α) (id : FrameId) :
    (a.release id).slots.size = a.slots.size := by
  unfold Arena.release
  split
  · rfl
  · split
    · rfl
    · simp

theorem retains_release (a : Arena α) (id : FrameId) : (a.release id).retains = a.retains := by
  unfold Arena.release
  split
  · rfl
  · split <;> rfl

theorem retains_push (a : Arena α) (enclosing : FrameId) :
    (a.push enclosing).retains = a.retains := by
  unfold Arena.push
  split <;> rfl

/-! ### Filed arenas -/

/-- There is a frame in the slot. -/
def Live (a : Arena α) (id : FrameId) : Prop := ∃ f, a.frame? id = some f

/-- There is a captured frame in the slot. -/
def Captured (a : Arena α) (id : FrameId) : Prop := ∃ f, a.frame? id = some f ∧ f.captured = true

/-- The free slots are the empty ones, each listed once. -/
structure Filed (a : Arena α) : Prop where
  mem_free : ∀ id, id ∈ a.free ↔ id.slot < a.slots.size ∧ a.frame? id = none
  nodup_free : a.free.Nodup

/-- In an arena without free slots a frame is opened in a new slot. -/
theorem frame?_push_of_full (h : a.free = []) (enclosing k : FrameId) :
    (a.push enclosing).frame? k =
      if k = a.nextFrame then some ⟨.empty, some enclosing, false⟩ else a.frame? k := by
  simp only [push, nextFrame, h, frame?, Array.getElem?_push]
  by_cases heq : k = ⟨a.slots.size⟩
  · simp [heq]
  · have hne : k.slot ≠ a.slots.size := slot_ne (Ne.symm heq)
    simp [heq, hne]

theorem free_push_of_full (h : a.free = []) (enclosing : FrameId) :
    (a.push enclosing).free = [] := by
  unfold Arena.push
  rw [h]

theorem free_lt_of_full (h : a.free = []) (id : FrameId) (hid : id ∈ a.free) :
    id.slot < a.slots.size := by
  rw [h] at hid
  cases hid

theorem slot_lt_nextFrame_of_full (h : a.free = []) (hk : a.Live k) :
    k.slot < a.nextFrame.slot := by
  obtain ⟨f, hf⟩ := hk
  simpa [nextFrame, h] using slot_lt_of_frame? hf

theorem not_live_nextFrame_of_full (h : a.free = []) : ¬a.Live a.nextFrame := fun hlive ↦
  absurd (slot_lt_nextFrame_of_full h hlive) (Nat.lt_irrefl _)

namespace Filed

theorem nextFrame_dead (h : a.Filed) : a.frame? a.nextFrame = none := by
  unfold nextFrame
  cases hfree : a.free with
  | nil => simp [frame?]
  | cons id rest => exact ((h.mem_free id).1 (by simp [hfree])).2

theorem not_live_nextFrame (h : a.Filed) : ¬a.Live a.nextFrame := by
  rintro ⟨f, hf⟩
  rw [h.nextFrame_dead] at hf
  cases hf

theorem frame?_push (h : a.Filed) (enclosing k : FrameId) :
    (a.push enclosing).frame? k =
      if k = a.nextFrame then some ⟨.empty, some enclosing, false⟩ else a.frame? k := by
  cases hfree : a.free with
  | nil => exact frame?_push_of_full hfree enclosing k
  | cons id rest =>
    have hlt := ((h.mem_free id).1 (by simp [hfree])).1
    simp only [Arena.push, nextFrame, hfree, frame?, Array.getElem?_setIfInBounds]
    by_cases heq : k = id
    · simp [heq, hlt]
    · simp [heq, slot_ne heq]

theorem frame?_push_of_live (h : a.Filed) (enclosing : FrameId) (hk : a.Live k) :
    (a.push enclosing).frame? k = a.frame? k := by
  rw [h.frame?_push, if_neg]
  rintro rfl
  exact h.not_live_nextFrame hk

theorem live_push (h : a.Filed) (enclosing : FrameId) :
    (a.push enclosing).Live k ↔ k = a.nextFrame ∨ a.Live k := by
  unfold Live
  rw [h.frame?_push]
  by_cases heq : k = a.nextFrame
  · simp [heq]
  · simp [heq]

theorem push (h : a.Filed) (enclosing : FrameId) : (a.push enclosing).Filed := by
  have hnodup := h.nodup_free
  refine ⟨fun id ↦ ?_, ?_⟩
  · rw [h.frame?_push]
    have hmem := h.mem_free id
    unfold Arena.push nextFrame at *
    cases hfree : a.free with
    | nil =>
      have hdead : ¬(id.slot < a.slots.size ∧ a.frame? id = none) := fun hid ↦ by
        simpa [hfree] using hmem.2 hid
      by_cases heq : id = ⟨a.slots.size⟩
      · simp [heq]
      · have hne : id.slot ≠ a.slots.size := slot_ne (Ne.symm heq)
        simp only [heq, if_false, List.not_mem_nil, false_iff, Array.size_push]
        rintro ⟨hlt, hnone⟩
        exact hdead ⟨by omega, hnone⟩
    | cons first rest =>
      rw [hfree, List.nodup_cons] at hnodup
      rw [hfree, List.mem_cons] at hmem
      by_cases heq : id = first
      · simp [heq, hnodup.1]
      · simpa [heq] using hmem
  · unfold Arena.push
    cases hfree : a.free with
    | nil => simp
    | cons first rest =>
      rw [hfree, List.nodup_cons] at hnodup
      exact hnodup.2

/-- An arena with frames in the same slots and with the same free slots is as filed. -/
theorem of_reframed {a' : Arena α} (h : a.Filed) (hfree : a'.free = a.free)
    (hsize : a'.slots.size = a.slots.size)
    (hnone : ∀ k, a'.frame? k = none ↔ a.frame? k = none) : a'.Filed where
  mem_free id := by rw [hfree, hsize, h.mem_free, hnone]
  nodup_free := hfree ▸ h.nodup_free

theorem setFrame (h : a.Filed) (hf : a.frame? id = some f) (g : Frame α) :
    (a.setFrame id g).Filed := by
  refine h.of_reframed rfl (by simp [Arena.setFrame]) fun k ↦ ?_
  rw [frame?_setFrame g hf]
  by_cases heq : k = id
  · simp [heq, hf]
  · simp [heq]

theorem release (h : a.Filed) (id : FrameId) : (a.release id).Filed := by
  by_cases hdrop : a.retains = false ∧ ∃ f, a.frame? id = some f ∧ f.captured = false
  · have hframe (k : FrameId) : (a.release id).frame? k = if k = id then none else a.frame? k := by
      rw [frame?_release]
      simp [hdrop]
    obtain ⟨hretains, f, hf, hcaptured⟩ := hdrop
    have hfree : (a.release id).free = id :: a.free := by
      simp [Arena.release, hf, hcaptured, hretains]
    have hsize : (a.release id).slots.size = a.slots.size := by
      simp [Arena.release, hf, hcaptured, hretains]
    have hfresh : id ∉ a.free := fun hmem ↦ by
      have := ((h.mem_free id).1 hmem).2
      rw [hf] at this
      cases this
    refine ⟨fun k ↦ ?_, ?_⟩
    · rw [hfree, hsize, hframe, List.mem_cons, h.mem_free]
      by_cases heq : k = id
      · simp [heq, slot_lt_of_frame? hf]
      · simp [heq]
    · rw [hfree]
      exact List.nodup_cons.2 ⟨hfresh, h.nodup_free⟩
  · rw [release_of_kept hdrop]
    exact h

end Filed

/-! ### Sound arenas -/

structure Sound (a : Arena α) : Prop where
  mem_free : ∀ id, id ∈ a.free ↔ id.slot < a.slots.size ∧ a.frame? id = none
  nodup_free : a.free.Nodup
  root : ∃ f, a.frame? globals = some f ∧ f.captured = true ∧ f.enclosing = none
  linked : ∀ id f outer, a.frame? id = some f → f.enclosing = some outer → a.Live outer
  closed : ∀ id f outer, a.frame? id = some f → f.captured = true → f.enclosing = some outer →
    a.Captured outer

theorem Captured.live (h : a.Captured id) : a.Live id := ⟨h.choose, h.choose_spec.1⟩

/-- Captured frames are never released. -/
theorem Captured.frame?_release (h : a.Captured k) (id : FrameId) :
    (a.release id).frame? k = a.frame? k := by
  obtain ⟨f, hf, hcaptured⟩ := h
  rw [Arena.frame?_release, if_neg]
  rintro ⟨rfl, -, g, hg, hloose⟩
  rw [hf] at hg
  cases hg
  rw [hcaptured] at hloose
  cases hloose

theorem Captured.release (h : a.Captured k) (id : FrameId) : (a.release id).Captured k := by
  have hsame := h.frame?_release id
  obtain ⟨f, hf, hcaptured⟩ := h
  exact ⟨f, hsame.trans hf, hcaptured⟩

theorem Sound.filed (h : a.Sound) : a.Filed := ⟨h.mem_free, h.nodup_free⟩

theorem Sound.captured_globals (h : a.Sound) : a.Captured globals :=
  let ⟨f, hf, hcaptured, _⟩ := h.root
  ⟨f, hf, hcaptured⟩

theorem frame?_ofGlobals (values : Bindings String α) (k : FrameId) :
    (ofGlobals values).frame? k = if k = globals then some ⟨values, none, true⟩ else none := by
  unfold frame? ofGlobals
  by_cases heq : k = globals
  · simp [heq, globals]
  · have hne : k.slot ≠ 0 := slot_ne_zero heq
    rw [if_neg heq]
    simp [hne]

theorem sound_ofGlobals (values : Bindings String α) : (ofGlobals values).Sound where
  mem_free id := by
    rw [frame?_ofGlobals]
    by_cases heq : id = globals
    · simp [ofGlobals, heq]
    · have hne : id.slot ≠ 0 := slot_ne_zero heq
      simp [ofGlobals, heq, hne]
  nodup_free := List.nodup_nil
  root := ⟨⟨values, none, true⟩, by simp [frame?_ofGlobals], rfl, rfl⟩
  linked id f outer h henclosing := by
    rw [frame?_ofGlobals] at h
    split at h
    · cases h
      cases henclosing
    · cases h
  closed id f outer h _ henclosing := by
    rw [frame?_ofGlobals] at h
    split at h
    · cases h
      cases henclosing
    · cases h

/-- Slots whose frames are kept are empty after as before. -/
theorem none_iff_of_kept {a' : Arena α} {kept : Frame α → Frame α → Prop}
    (hnone : ∀ k, a.frame? k = none → a'.frame? k = none)
    (hsome : ∀ k f, a.frame? k = some f → ∃ f', a'.frame? k = some f' ∧ kept f f') (k : FrameId) :
    a'.frame? k = none ↔ a.frame? k = none := by
  refine ⟨fun hk ↦ ?_, hnone k⟩
  cases hframe : a.frame? k with
  | none => rfl
  | some f =>
    obtain ⟨f', hf', -⟩ := hsome k f hframe
    rw [hk] at hf'
    cases hf'

/-- An arena with the same frames but for their values and with the same free slots is as sound.
Frames may have been captured, with those around them. -/
theorem Sound.of_reframed {a' : Arena α} (h : a.Sound) (hfree : a'.free = a.free)
    (hsize : a'.slots.size = a.slots.size)
    (hnone : ∀ k, a.frame? k = none → a'.frame? k = none)
    (hsome : ∀ k f, a.frame? k = some f → ∃ f', a'.frame? k = some f' ∧
      f'.enclosing = f.enclosing ∧ (f.captured = true → f'.captured = true))
    (hclosed : ∀ k f outer, a'.frame? k = some f → f.captured = true →
      f.enclosing = some outer → a'.Captured outer) : a'.Sound where
  mem_free := (h.filed.of_reframed hfree hsize (none_iff_of_kept hnone hsome)).mem_free
  nodup_free := hfree ▸ h.nodup_free
  root := by
    obtain ⟨f, hf, hcaptured, henclosing⟩ := h.root
    obtain ⟨f', hf', henclosing', hcaptured'⟩ := hsome _ f hf
    exact ⟨f', hf', hcaptured' hcaptured, henclosing'.trans henclosing⟩
  linked id f' outer hf' henclosing := by
    cases hframe : a.frame? id with
    | none => rw [hnone id hframe] at hf'; cases hf'
    | some f =>
      obtain ⟨f'', hf'', henclosing', -⟩ := hsome id f hframe
      obtain rfl : f' = f'' := by rw [hf'] at hf''; exact Option.some.inj hf''
      obtain ⟨g, hg⟩ := h.linked id f outer hframe (henclosing' ▸ henclosing)
      obtain ⟨g', hg', -⟩ := hsome outer g hg
      exact ⟨g', hg'⟩
  closed := hclosed

theorem Sound.bind (h : a.Sound) (hf : a.frame? id = some f) (name : String) (value : α) :
    (a.bind id f name value).Sound := by
  have hframe := frame?_bind name value hf
  refine h.of_reframed rfl (by simp [Arena.bind, setFrame]) (fun k hk ↦ ?_) (fun k g hk ↦ ?_)
    fun k g outer hk hcaptured henclosing ↦ ?_
  · rw [hframe, if_neg]
    · exact hk
    · rintro rfl
      rw [hf] at hk
      cases hk
  · by_cases heq : k = id
    · subst heq
      obtain rfl : f = g := by rw [hf] at hk; exact Option.some.inj hk
      exact ⟨{ f with values := f.values.insert name value }, by rw [hframe, if_pos rfl], rfl,
        fun hcaptured ↦ hcaptured⟩
    · exact ⟨g, by rw [hframe, if_neg heq, hk], rfl, fun hcaptured ↦ hcaptured⟩
  · obtain ⟨g', hg', hcaptured', henclosing'⟩ : ∃ g', a.frame? k = some g' ∧
        g'.captured = true ∧ g'.enclosing = some outer := by
      rw [hframe] at hk
      split at hk
      next heq =>
        cases hk
        exact ⟨f, heq ▸ hf, hcaptured, henclosing⟩
      next => exact ⟨g, hk, hcaptured, henclosing⟩
    obtain ⟨g'', hg'', hcaptured''⟩ := h.closed k g' outer hg' hcaptured' henclosing'
    by_cases heq : outer = id
    · refine ⟨_, by rw [hframe, if_pos heq], ?_⟩
      rw [heq, hf] at hg''
      cases hg''
      exact hcaptured''
    · exact ⟨g'', by rw [hframe, if_neg heq, hg''], hcaptured''⟩

theorem Sound.push (h : a.Sound) {enclosing : FrameId} (henclosing : a.Live enclosing) :
    (a.push enclosing).Sound := by
  have hframe := h.filed.frame?_push enclosing
  have hlive (k : FrameId) (hk : a.Live k) : (a.push enclosing).frame? k = a.frame? k :=
    h.filed.frame?_push_of_live enclosing hk
  have hfiled := h.filed.push enclosing
  refine ⟨hfiled.mem_free, hfiled.nodup_free, ?_, fun id f outer hf houter ↦ ?_,
    fun id f outer hf hcaptured houter ↦ ?_⟩
  · obtain ⟨f, hf, hcaptured, hnone⟩ := h.root
    exact ⟨f, (hlive _ ⟨f, hf⟩).trans hf, hcaptured, hnone⟩
  · rw [hframe] at hf
    split at hf
    · cases hf
      cases houter
      obtain ⟨g, hg⟩ := henclosing
      exact ⟨g, (hlive _ ⟨g, hg⟩).trans hg⟩
    · obtain ⟨g, hg⟩ := h.linked id f outer hf houter
      exact ⟨g, (hlive _ ⟨g, hg⟩).trans hg⟩
  · rw [hframe] at hf
    split at hf
    · cases hf
      cases hcaptured
    · obtain ⟨g, hg, hgcaptured⟩ := h.closed id f outer hf hcaptured houter
      exact ⟨g, (hlive _ ⟨g, hg⟩).trans hg, hgcaptured⟩

/-- Releasing keeps an arena sound if no live frame lies in the one released. -/
theorem Sound.release (h : a.Sound) (hlone : ∀ k f, a.frame? k = some f → f.captured = false →
    f.enclosing ≠ some id) : (a.release id).Sound := by
  by_cases hdrop : a.retains = false ∧ ∃ f, a.frame? id = some f ∧ f.captured = false
  · have hframe (k : FrameId) : (a.release id).frame? k = if k = id then none else a.frame? k := by
      rw [frame?_release]
      simp [hdrop]
    have hother (k : FrameId) (hk : a.Captured k) : (a.release id).frame? k = a.frame? k :=
      hk.frame?_release id
    have hfiled := h.filed.release id
    refine ⟨hfiled.mem_free, hfiled.nodup_free, ?_, fun k g outer hk houter ↦ ?_,
      fun k g outer hk hg houter ↦ ?_⟩
    · obtain ⟨g, hg, hgcaptured, hnone⟩ := h.root
      exact ⟨g, (hother _ ⟨g, hg, hgcaptured⟩).trans hg, hgcaptured, hnone⟩
    · rw [hframe] at hk
      split at hk
      · cases hk
      · cases hgcaptured : g.captured with
        | true =>
          obtain ⟨g', hg', hcaptured'⟩ := h.closed k g outer hk hgcaptured houter
          exact ⟨g', (hother _ ⟨g', hg', hcaptured'⟩).trans hg'⟩
        | false =>
          obtain ⟨g', hg'⟩ := h.linked k g outer hk houter
          refine ⟨g', ?_⟩
          rw [hframe, if_neg]
          · exact hg'
          · rintro rfl
            exact hlone k g hk hgcaptured houter
    · rw [hframe] at hk
      split at hk
      · cases hk
      · obtain ⟨g', hg', hcaptured'⟩ := h.closed k g outer hk hg houter
        exact ⟨g', (hother _ ⟨g', hg', hcaptured'⟩).trans hg', hcaptured'⟩
  · rw [release_of_kept hdrop]
    exact h

end Lox.Arena
