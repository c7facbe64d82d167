import Lox.Arena
import Lox.Proofs.Bindings
import Mathlib.Data.List.Basic

/-!
Arenas changed value by value. No operation looks at the values: each does to the changed arena
what it does to the arena, and finds in it the same frames, and the values changed.
-/

set_option autoImplicit false

namespace Lox

variable {α β : Type}

/-- The frame with `g` applied to every value. -/
def Frame.map (g : α → β) (f : Frame α) : Frame β := ⟨f.values.map g, f.enclosing, f.captured⟩

@[simp] theorem Frame.values_map (g : α → β) (f : Frame α) : (f.map g).values = f.values.map g :=
  rfl

@[simp] theorem Frame.enclosing_map (g : α → β) (f : Frame α) : (f.map g).enclosing = f.enclosing :=
  rfl

namespace Arena

/-- The arena with `g` applied to every value. -/
def map (g : α → β) (a : Arena α) : Arena β :=
  ⟨a.slots.map (Option.map (Frame.map g)), a.free, a.retains⟩

variable (g : α → β) (a : Arena α)

/-! ### Frames -/

theorem frame?_map (id : FrameId) : (a.map g).frame? id = (a.frame? id).map (Frame.map g) := by
  unfold frame? map
  rw [Array.getElem?_map]
  cases a.slots[id.slot]? <;> rfl

theorem frame_map (id : FrameId) : (a.map g).frame id = (a.frame id).map (Frame.map g) := by
  unfold frame
  rw [frame?_map]
  cases a.frame? id <;> rfl

theorem nextFrame_map : (a.map g).nextFrame = a.nextFrame := by
  obtain ⟨slots, free, retains⟩ := a
  cases free <;> simp [nextFrame, map]

theorem setFrame_map (id : FrameId) (f : Frame α) :
    (a.map g).setFrame id (f.map g) = (a.setFrame id f).map g := by
  simp [setFrame, map]

theorem bind_map (id : FrameId) (f : Frame α) (name : String) (v : α) :
    (a.map g).bind id (f.map g) name (g v) = (a.bind id f name v).map g := by
  unfold bind
  rw [← setFrame_map]
  unfold Frame.map
  rw [Bindings.map_insert]

theorem push_map (enclosing : FrameId) : (a.map g).push enclosing = (a.push enclosing).map g := by
  obtain ⟨slots, free, retains⟩ := a
  cases free <;> simp [push, map, Frame.map]

theorem release_map (id : FrameId) : (a.map g).release id = (a.release id).map g := by
  unfold release
  rw [frame?_map]
  cases a.frame? id with
  | none => rfl
  | some f =>
    simp only [Option.map_some]
    change (if f.captured || a.retains then _ else _) = _
    split <;> simp [map]

theorem captureFrom_map (steps : Nat) (id : FrameId) :
    captureFrom steps (a.map g) id = (captureFrom steps a id).map g := by
  induction steps generalizing a id with
  | zero => rfl
  | succ steps ih =>
    unfold captureFrom
    rw [frame?_map]
    cases a.frame? id with
    | none => rfl
    | some f =>
      obtain ⟨values, enclosing, captured⟩ := f
      have hmark := setFrame_map g a id ⟨values, enclosing, true⟩
      cases captured with
      | true => rfl
      | false =>
        cases enclosing with
        | none => exact hmark
        | some outer => exact (congrArg (captureFrom steps · outer) hmark).trans (ih _ outer)

theorem capture_map (id : FrameId) : (a.map g).capture id = (a.capture id).map g := by
  unfold capture
  rw [captureFrom_map]
  change (captureFrom (a.slots.map _).size a id).map g = _
  rw [Array.size_map]

/-! ### Names -/

theorem ancestorFrom_map (start : FrameId) (total distance : Nat) (id : FrameId) :
    (a.map g).ancestorFrom start total distance id = a.ancestorFrom start total distance id := by
  induction distance generalizing id with
  | zero => rfl
  | succ distance ih =>
    unfold ancestorFrom
    rw [frame_map]
    cases a.frame id with
    | error fault => rfl
    | ok f =>
      obtain ⟨values, enclosing, captured⟩ := f
      cases enclosing with
      | none => rfl
      | some outer => exact ih outer

theorem getAt_map (id : FrameId) (distance : Nat) (name : String) :
    (a.map g).getAt id distance name = (a.getAt id distance name).map g := by
  unfold getAt ancestor
  rw [ancestorFrom_map]
  cases a.ancestorFrom id distance distance id with
  | error fault => rfl
  | ok target =>
    dsimp only
    rw [frame_map]
    cases a.frame target with
    | error fault => rfl
    | ok f =>
      simp only [Except.map, Frame.values_map, Bindings.find?_map]
      cases f.values.find? name <;> rfl

theorem holderAt_map (id : FrameId) (distance : Nat) (name : String) :
    (a.map g).holderAt id distance name = a.holderAt id distance name := by
  unfold holderAt ancestor
  rw [ancestorFrom_map]
  cases a.ancestorFrom id distance distance id with
  | error fault => rfl
  | ok target =>
    dsimp only
    rw [frame_map]
    cases a.frame target with
    | error fault => rfl
    | ok f =>
      simp only [Except.map, Frame.values_map, Bindings.contains_map]

theorem holderFrom_map (start : FrameId) (name : String) (steps : Nat) (id : FrameId) :
    (a.map g).holderFrom start name steps id = a.holderFrom start name steps id := by
  induction steps generalizing id with
  | zero => rfl
  | succ steps ih =>
    unfold holderFrom
    rw [frame_map]
    cases a.frame id with
    | error fault => rfl
    | ok f =>
      simp only [Except.map, Frame.values_map, Frame.enclosing_map, Bindings.contains_map]
      split
      · rfl
      · cases f.enclosing with
        | none => rfl
        | some outer => exact ih outer

theorem holder_map (id : FrameId) (name : String) :
    (a.map g).holder id name = a.holder id name := by
  unfold holder
  rw [holderFrom_map]
  change a.holderFrom id name ((a.slots.map _).size + 1) id = _
  rw [Array.size_map]

theorem get_map (id : FrameId) (name : String) :
    (a.map g).get id name = (a.get id name).map (Option.map g) := by
  unfold get
  rw [holder_map]
  cases a.holder id name with
  | error fault => rfl
  | ok holder? =>
    refine congrArg Except.ok ?_
    cases holder? with
    | none => rfl
    | some holder =>
      change ((a.map g).frame? holder).bind _ = Option.map g ((a.frame? holder).bind _)
      rw [frame?_map]
      cases a.frame? holder with
      | none => rfl
      | some f => exact Bindings.find?_map g f.values name

end Arena

end Lox
