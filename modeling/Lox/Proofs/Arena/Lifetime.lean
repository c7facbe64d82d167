import Lox.Proofs.Arena.Capture

/-!
What a stretch of a run leaves of an arena. The frames that were live stay live, in the frames
they lay in, and no flag is taken back; and whatever is loose at the end was live at the start,
so that a frame opened on the way has been released or captured. Stretches compose, and a frame
that is opened before a stretch may be released or captured after it
(`Filed.continues_release_opened`, `Filed.continues_capture_opened`).
-/

set_option autoImplicit false

namespace Lox.Arena

variable {α : Type} {a a' a'' : Arena α} {id k outer enclosing : FrameId} {f : Frame α}

structure Continues (a a' : Arena α) : Prop where
  kept : ∀ k f, a.frame? k = some f → ∃ f', a'.frame? k = some f' ∧
    f'.enclosing = f.enclosing ∧ (f.captured = true → f'.captured = true)
  settled : ∀ k f, a'.frame? k = some f → f.captured = false → a.Live k

namespace Continues

theorem refl (a : Arena α) : a.Continues a :=
  ⟨fun _ f hk ↦ ⟨f, hk, rfl, fun h ↦ h⟩, fun _ f hk _ ↦ ⟨f, hk⟩⟩

theorem live (h : a.Continues a') (hk : a.Live k) : a'.Live k := by
  obtain ⟨f, hf⟩ := hk
  obtain ⟨f', hf', -⟩ := h.kept k f hf
  exact ⟨f', hf'⟩

theorem captured (h : a.Continues a') (hk : a.Captured k) : a'.Captured k := by
  obtain ⟨f, hf, hcaptured⟩ := hk
  obtain ⟨f', hf', -, hcaptured'⟩ := h.kept k f hf
  exact ⟨f', hf', hcaptured' hcaptured⟩

/-- What is loose at the end was loose at the start. -/
theorem loose (h : a.Continues a') (hk : a'.frame? k = some f) (hloose : f.captured = false) :
    ∃ g, a.frame? k = some g ∧ g.captured = false := by
  obtain ⟨g, hg⟩ := h.settled k f hk hloose
  refine ⟨g, hg, ?_⟩
  cases hcaptured : g.captured with
  | false => rfl
  | true =>
    obtain ⟨f', hf', -, hcaptured'⟩ := h.kept k g hg
    rw [hk] at hf'
    cases hf'
    rw [hcaptured' hcaptured] at hloose
    cases hloose

theorem trans (h : a.Continues a') (h' : a'.Continues a'') : a.Continues a'' := by
  refine ⟨fun k f hk ↦ ?_, fun k f hk hloose ↦ ?_⟩
  · obtain ⟨f', hf', henclosing, hcaptured⟩ := h.kept k f hk
    obtain ⟨f'', hf'', henclosing', hcaptured'⟩ := h'.kept k f' hf'
    exact ⟨f'', hf'', henclosing'.trans henclosing, fun hc ↦ hcaptured' (hcaptured hc)⟩
  · obtain ⟨f', hf', hcaptured⟩ := h'.loose hk hloose
    exact h.settled k f' hf' hcaptured

/-- The frame that a live frame lies in is the same at the end of a stretch as before. -/
theorem enclosing_eq (h : a.Continues a') {f' : Frame α} (hf : a.frame? k = some f)
    (hf' : a'.frame? k = some f') : f'.enclosing = f.enclosing := by
  obtain ⟨g, hg, henclosing, -⟩ := h.kept k f hf
  rw [hf'] at hg
  cases hg
  exact henclosing

end Continues

theorem continues_setFrame (values : Bindings String α) (hf : a.frame? id = some f) :
    a.Continues (a.setFrame id { f with values := values }) := by
  have hframe := frame?_setFrame { f with values := values } hf
  refine ⟨fun k g hk ↦ ?_, fun k g hk _ ↦ ?_⟩
  · by_cases heq : k = id
    · subst heq
      rw [hf] at hk
      cases hk
      exact ⟨{ f with values := values }, by rw [hframe, if_pos rfl], rfl, fun h ↦ h⟩
    · exact ⟨g, by rw [hframe, if_neg heq, hk], rfl, fun h ↦ h⟩
  · by_cases heq : k = id
    · exact heq ▸ ⟨f, hf⟩
    · rw [hframe, if_neg heq] at hk
      exact ⟨g, hk⟩

theorem continues_bind (name : String) (value : α) (hf : a.frame? id = some f) :
    a.Continues (a.bind id f name value) :=
  continues_setFrame _ hf

theorem continues_capture (a : Arena α) (id : FrameId) : a.Continues (a.capture id) := by
  obtain ⟨marked, hmarked⟩ := frame?_capture a id
  refine ⟨fun k f hk ↦ ?_, fun k f hk _ ↦ ?_⟩
  · exact ⟨{ f with captured := f.captured || marked k }, by rw [hmarked, hk, Option.map_some],
      rfl, fun h ↦ by simp [h]⟩
  · rw [hmarked] at hk
    obtain ⟨g, hg, -⟩ := Option.map_eq_some_iff.1 hk
    exact ⟨g, hg⟩

namespace Sound

/-- After a stretch no loose frame lies in a frame that was opened before it. -/
theorem lone_of_opened (h : a.Sound) (henclosing : a.Live enclosing)
    (hlater : (a.push enclosing).Continues a') (k : FrameId) (f : Frame α)
    (hf : a'.frame? k = some f) (hloose : f.captured = false) :
    f.enclosing ≠ some a.nextFrame := by
  obtain ⟨g, hg⟩ := hlater.settled k f hf hloose
  rw [hlater.enclosing_eq hg hf]
  rw [h.filed.frame?_push] at hg
  split at hg
  · cases hg
    rintro houter
    cases houter
    exact h.filed.not_live_nextFrame henclosing
  · intro houter
    exact h.filed.not_live_nextFrame (h.linked k g _ hg houter)

/-- A frame opened before a stretch is released after it. -/
theorem release_opened (h : a.Sound) (h' : a'.Sound) (henclosing : a.Live enclosing)
    (hlater : (a.push enclosing).Continues a') :
    (a'.release a.nextFrame).Sound :=
  h'.release (h.lone_of_opened henclosing hlater)

end Sound

namespace Filed

theorem continues_release_opened (h : a.Filed) (hretains : a'.retains = false)
    (hlater : (a.push enclosing).Continues a') : a.Continues (a'.release a.nextFrame) := by
  refine ⟨fun k f hk ↦ ?_, fun k f hk hloose ↦ ?_⟩
  · have hne : k ≠ a.nextFrame := by
      rintro rfl
      exact h.not_live_nextFrame ⟨f, hk⟩
    obtain ⟨f', hf', hkept⟩ := hlater.kept k f
      (by rw [h.frame?_push_of_live enclosing ⟨f, hk⟩, hk])
    exact ⟨f', by rw [frame?_release, if_neg fun hdrop ↦ hne hdrop.1, hf'], hkept⟩
  · rw [frame?_release] at hk
    split at hk
    · cases hk
    next hkeep =>
      rcases (h.live_push enclosing).1 (hlater.settled k f hk hloose) with rfl | hlive
      · exact absurd ⟨rfl, hretains, f, hk, hloose⟩ hkeep
      · exact hlive

/-- A frame opened before a stretch is captured after it. -/
theorem continues_capture_opened (h : a.Filed) (hlater : (a.push enclosing).Continues a') :
    a.Continues (a'.capture a.nextFrame) := by
  have hnext : a'.Live a.nextFrame := hlater.live ((h.live_push enclosing).2 (Or.inl rfl))
  have hcapture := hlater.trans (continues_capture a' a.nextFrame)
  refine ⟨fun k f hk ↦ ?_, fun k f hk hloose ↦ ?_⟩
  · exact hcapture.kept k f (by rw [h.frame?_push_of_live enclosing ⟨f, hk⟩, hk])
  · rcases (h.live_push enclosing).1 (hcapture.settled k f hk hloose) with rfl | hlive
    · obtain ⟨g, hg, hcaptured⟩ := hnext.captured_capture
      rw [hk] at hg
      cases hg
      rw [hloose] at hcaptured
      cases hcaptured
    · exact hlive

end Filed

end Lox.Arena
