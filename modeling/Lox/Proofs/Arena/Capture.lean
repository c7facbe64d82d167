import Lox.Proofs.Arena.Frames
import Mathlib.Data.List.Basic

/-!
Capturing goes from a frame outwards and stops at the first frame that is captured already.
The first step captures the frame itself (`Live.captured_capture`). In a sound arena that is enough:
what is captured lies in what is captured, before and after (`Sound.capture`), and the steps that
are allowed are enough to get there, since each of them captures one frame more.
-/

set_option autoImplicit false

namespace Lox.Arena

variable {α : Type} {a : Arena α} {id k outer : FrameId} {f : Frame α} {steps : Nat}

/-! ### One step -/

/-- The arena with one frame captured, whose present content is given. -/
def mark (a : Arena α) (id : FrameId) (f : Frame α) : Arena α :=
  a.setFrame id { f with captured := true }

theorem captureFrom_of_dead (h : a.frame? id = none) : captureFrom steps a id = a := by
  cases steps with
  | zero => rfl
  | succ steps => simp [captureFrom, h]

theorem captureFrom_of_captured (h : a.frame? id = some f) (hcaptured : f.captured = true) :
    captureFrom steps a id = a := by
  cases steps with
  | zero => rfl
  | succ steps => simp [captureFrom, h, hcaptured]

theorem captureFrom_outermost (h : a.frame? id = some f) (hloose : f.captured = false)
    (houter : f.enclosing = none) : captureFrom (steps + 1) a id = a.mark id f := by
  simp [captureFrom, h, hloose, houter, mark]

theorem captureFrom_inner (h : a.frame? id = some f) (hloose : f.captured = false)
    (houter : f.enclosing = some outer) :
    captureFrom (steps + 1) a id = captureFrom steps (a.mark id f) outer := by
  simp [captureFrom, h, hloose, houter, mark]

theorem frame?_mark (h : a.frame? id = some f) (k : FrameId) :
    (a.mark id f).frame? k = if k = id then some { f with captured := true } else a.frame? k :=
  frame?_setFrame _ h k

theorem captured_mark (h : a.frame? id = some f) : (a.mark id f).Captured id :=
  ⟨{ f with captured := true }, by rw [frame?_mark h, if_pos rfl], rfl⟩

theorem Captured.mark (hk : a.Captured k) (h : a.frame? id = some f) :
    (a.mark id f).Captured k := by
  by_cases heq : k = id
  · rw [heq]
    exact captured_mark h
  · obtain ⟨g, hg, hcaptured⟩ := hk
    exact ⟨g, by rw [frame?_mark h, if_neg heq, hg], hcaptured⟩

theorem Live.mark (hk : a.Live k) (h : a.frame? id = some f) : (a.mark id f).Live k := by
  by_cases heq : k = id
  · rw [heq]
    exact (captured_mark h).live
  · obtain ⟨g, hg⟩ := hk
    exact ⟨g, by rw [frame?_mark h, if_neg heq, hg]⟩

/-! ### All steps -/

/-- Capturing changes nothing but the flags of frames, and these only one way. -/
theorem frame?_captureFrom (steps : Nat) (a : Arena α) (id : FrameId) :
    ∃ marked : FrameId → Bool, ∀ k, (captureFrom steps a id).frame? k =
      (a.frame? k).map fun f ↦ { f with captured := f.captured || marked k } := by
  induction steps generalizing a id with
  | zero => exact ⟨fun _ ↦ false, fun k ↦ by simp [captureFrom]⟩
  | succ steps ih =>
    cases hid : a.frame? id with
    | none => exact ⟨fun _ ↦ false, fun k ↦ by simp [captureFrom_of_dead hid]⟩
    | some f =>
      cases hloose : f.captured with
      | true => exact ⟨fun _ ↦ false, fun k ↦ by simp [captureFrom_of_captured hid hloose]⟩
      | false =>
        have hmarked (k : FrameId) : (a.mark id f).frame? k =
            (a.frame? k).map fun g ↦ { g with captured := g.captured || decide (k = id) } := by
          rw [frame?_mark hid]
          by_cases heq : k = id
          · simp [heq, hid]
          · simp [heq]
        cases houter : f.enclosing with
        | none =>
          rw [captureFrom_outermost hid hloose houter]
          exact ⟨fun k ↦ decide (k = id), hmarked⟩
        | some outer =>
          rw [captureFrom_inner hid hloose houter]
          obtain ⟨marked, hrest⟩ := ih (a.mark id f) outer
          refine ⟨fun k ↦ decide (k = id) || marked k, fun k ↦ ?_⟩
          rw [hrest, hmarked, Option.map_map]
          congr 1
          funext g
          simp [Bool.or_assoc]

theorem free_captureFrom (steps : Nat) (a : Arena α) (id : FrameId) :
    (captureFrom steps a id).free = a.free ∧
      (captureFrom steps a id).slots.size = a.slots.size ∧
      (captureFrom steps a id).retains = a.retains := by
  have hmark (f : Frame α) : (a.mark id f).slots.size = a.slots.size := by simp [mark, setFrame]
  induction steps generalizing a id with
  | zero => exact ⟨rfl, rfl, rfl⟩
  | succ steps ih =>
    cases hid : a.frame? id with
    | none => simp [captureFrom_of_dead hid]
    | some f =>
      cases hloose : f.captured with
      | true => simp [captureFrom_of_captured hid hloose]
      | false =>
        cases houter : f.enclosing with
        | none =>
          rw [captureFrom_outermost hid hloose houter]
          exact ⟨rfl, hmark f, rfl⟩
        | some outer =>
          rw [captureFrom_inner hid hloose houter]
          obtain ⟨hfree, hsize, hretains⟩ := ih (a.mark id f) outer (by simp [mark, setFrame])
          exact ⟨hfree, hsize.trans (hmark f), hretains⟩

theorem Captured.captureFrom (h : a.Captured k) (steps : Nat) (id : FrameId) :
    (captureFrom steps a id).Captured k := by
  obtain ⟨f, hf, hcaptured⟩ := h
  obtain ⟨marked, hmarked⟩ := frame?_captureFrom steps a id
  exact ⟨{ f with captured := f.captured || marked k }, by rw [hmarked, hf, Option.map_some],
    by simp [hcaptured]⟩

/-- The first step captures the frame itself. -/
theorem Live.captured_capture (h : a.Live id) : (a.capture id).Captured id := by
  obtain ⟨f, hf⟩ := h
  have hlt := slot_lt_of_frame? hf
  obtain ⟨steps, hsteps⟩ : ∃ steps, a.slots.size = steps + 1 := ⟨a.slots.size - 1, by omega⟩
  unfold capture
  rw [hsteps]
  cases hloose : f.captured with
  | true =>
    rw [captureFrom_of_captured hf hloose]
    exact ⟨f, hf, hloose⟩
  | false =>
    cases houter : f.enclosing with
    | none =>
      rw [captureFrom_outermost hf hloose houter]
      exact captured_mark hf
    | some outer =>
      rw [captureFrom_inner hf hloose houter]
      exact (captured_mark hf).captureFrom steps outer

/-! ### Enough steps -/

/-- Whether a slot holds a frame that nothing has captured. -/
def isLoose (slot : Option (Frame α)) : Bool := slot.any fun f ↦ !f.captured

/-- How many frames nothing has captured. -/
def looseCount (a : Arena α) : Nat := a.slots.countP isLoose

theorem looseCount_le (a : Arena α) : a.looseCount ≤ a.slots.size := Array.countP_le_size

theorem looseCount_mark (hid : a.frame? id = some f) (hloose : f.captured = false) :
    (a.mark id f).looseCount + 1 = a.looseCount := by
  have hlt := slot_lt_of_frame? hid
  have hslot : a.slots[id.slot] = some f := by
    have hsome := frame?_eq_some_iff.1 hid
    rw [Array.getElem?_eq_getElem hlt] at hsome
    exact Option.some.inj hsome
  have hisloose : isLoose (some f) = true := by simp [isLoose, hloose]
  have hpos : 0 < a.slots.countP isLoose :=
    Array.countP_pos_iff.2 ⟨some f, hslot ▸ Array.getElem_mem hlt, hisloose⟩
  unfold looseCount mark setFrame
  rw [Array.setIfInBounds_def, dif_pos hlt, Array.countP_set, hslot, if_pos hisloose]
  simp only [isLoose, Option.any_some, Bool.not_true, Bool.false_eq_true, if_false]
  omega

/-- What is around captured frames is captured, but for one frame perhaps. -/
def ClosedBut (a : Arena α) (id : FrameId) : Prop :=
  ∀ k f outer, a.frame? k = some f → f.captured = true → f.enclosing = some outer →
    outer = id ∨ a.Captured outer

theorem ClosedBut.captured (h : a.ClosedBut id) (hid : a.Captured id) {g : Frame α}
    (hk : a.frame? k = some g) (hg : g.captured = true) (houter : g.enclosing = some outer) :
    a.Captured outer := by
  rcases h k g outer hk hg houter with rfl | hcaptured
  · exact hid
  · exact hcaptured

/-- The frame around the one that is marked takes over as the one to be captured. -/
theorem ClosedBut.mark {next : FrameId} (h : a.ClosedBut id) (hid : a.frame? id = some f)
    (hnext : ∀ outer, f.enclosing = some outer → outer = next) :
    (a.mark id f).ClosedBut next := by
  intro k g outer hk hg houter
  rw [frame?_mark hid] at hk
  split at hk
  · cases hk
    exact Or.inl (hnext outer houter)
  · rcases h k g outer hk hg houter with rfl | hcaptured
    · exact Or.inr (captured_mark hid)
    · exact Or.inr (hcaptured.mark hid)

/-- With as many steps as there are loose frames, what is around captured frames is captured in the
end. -/
theorem closed_captureFrom (steps : Nat) (a : Arena α) (id : FrameId)
    (hsteps : a.looseCount ≤ steps) (hid : a.Live id)
    (hlinked : ∀ k f outer, a.frame? k = some f → f.enclosing = some outer → a.Live outer)
    (hclosed : a.ClosedBut id) :
    ∀ k f outer, (captureFrom steps a id).frame? k = some f → f.captured = true →
      f.enclosing = some outer → (captureFrom steps a id).Captured outer := by
  induction steps generalizing a id with
  | zero =>
    obtain ⟨f, hf⟩ := hid
    have hcaptured : f.captured = true := by
      cases hloose : f.captured with
      | true => rfl
      | false =>
        have := looseCount_mark hf hloose
        omega
    exact fun k g outer ↦ hclosed.captured ⟨f, hf, hcaptured⟩
  | succ steps ih =>
    obtain ⟨f, hf⟩ := hid
    cases hloose : f.captured with
    | true =>
      rw [captureFrom_of_captured hf hloose]
      exact fun k g outer ↦ hclosed.captured ⟨f, hf, hloose⟩
    | false =>
      cases houter : f.enclosing with
      | none =>
        rw [captureFrom_outermost hf hloose houter]
        have hmarked : (a.mark id f).ClosedBut id := hclosed.mark hf fun outer h ↦ by
          rw [houter] at h
          cases h
        exact fun k g outer ↦ hmarked.captured (captured_mark hf)
      | some next =>
        rw [captureFrom_inner hf hloose houter]
        exact ih (a.mark id f) next
          (by have := looseCount_mark hf hloose; omega)
          ((hlinked id f next hf houter).mark hf)
          (fun k g outer hk hg ↦ by
            rw [frame?_mark hf] at hk
            split at hk
            · cases hk
              exact (hlinked id f outer hf hg).mark hf
            · exact (hlinked k g outer hk hg).mark hf)
          (hclosed.mark hf fun outer h ↦ by
            rw [houter] at h
            exact (Option.some.inj h).symm)

theorem frame?_capture (a : Arena α) (id : FrameId) :
    ∃ marked : FrameId → Bool, ∀ k, (a.capture id).frame? k =
      (a.frame? k).map fun f ↦ { f with captured := f.captured || marked k } :=
  frame?_captureFrom a.slots.size a id

theorem Filed.capture (h : a.Filed) (id : FrameId) : (a.capture id).Filed := by
  obtain ⟨marked, hmarked⟩ := frame?_capture a id
  obtain ⟨hfree, hsize, -⟩ := free_captureFrom a.slots.size a id
  exact h.of_reframed hfree hsize fun k ↦ by rw [hmarked, Option.map_eq_none_iff]

theorem Sound.capture (h : a.Sound) (hid : a.Live id) : (a.capture id).Sound := by
  obtain ⟨marked, hmarked⟩ := frame?_capture a id
  obtain ⟨hfree, hsize, -⟩ := free_captureFrom a.slots.size a id
  refine h.of_reframed hfree hsize (fun k hk ↦ by rw [hmarked, hk, Option.map_none])
    (fun k f hk ↦ ⟨{ f with captured := f.captured || marked k },
      by rw [hmarked, hk, Option.map_some], rfl, fun hcaptured ↦ by simp [hcaptured]⟩)
    (closed_captureFrom _ a id a.looseCount_le hid h.linked
      fun k f outer hk hf houter ↦ Or.inr (h.closed k f outer hk hf houter))

end Lox.Arena
