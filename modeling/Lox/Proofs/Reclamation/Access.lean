import Lox.Proofs.Arena.Accesses
import Lox.Proofs.Reclamation.Following

/-!
Reading and writing names and fields on similar machines. A walk along enclosing frames takes the
same turns on both, and ends in frames that correspond or in the same fault, whatever the
distance it is given; a frame that is missing from one is missing from neither.
-/

set_option autoImplicit false

namespace Lox

open Referring Machine

variable {ρ ρ₁ : FrameId → FrameId} {m m' : Machine} {env env' : FrameId}
  {A B : Option Failure → Prop}

/-- Answers of a look at two arenas: both good, or both the same fault. -/
inductive AlikeAnswers {α : Type} (good : α → α → Prop) :
    Except Arena.Fault α → Except Arena.Fault α → Prop
  | fault {fault fault' : Arena.Fault} (h : fault.unslotted = fault'.unslotted) :
    AlikeAnswers good (.error fault) (.error fault')
  | answer {a a' : α} (h : good a a') : AlikeAnswers good (.ok a) (.ok a')

namespace Machine.Similar

theorem ancestorFrom (h : Similar ρ m m') (start start' : FrameId) (total distance : Nat)
    (henv : Points ρ m env env') :
    AlikeAnswers (Points ρ m) (m.arena.ancestorFrom start total distance env)
      (m'.arena.ancestorFrom start' total distance env') := by
  induction distance generalizing env env' with
  | zero => exact .answer henv
  | succ distance ih =>
    obtain ⟨⟨f, hf⟩, rfl⟩ := henv
    obtain ⟨c, hc⟩ := h.frames env f hf
    simp only [Arena.ancestorFrom, Arena.frame_of_frame? hf, Arena.frame_of_frame? hc]
    cases houter : f.enclosing with
    | none => exact .fault rfl
    | some outer => exact ih ⟨h.tidy.sound.linked env f outer hf houter, rfl⟩

theorem ancestor (h : Similar ρ m m') (distance : Nat) (henv : Points ρ m env env') :
    AlikeAnswers (Points ρ m) (m.arena.ancestor env distance)
      (m'.arena.ancestor env' distance) :=
  h.ancestorFrom env env' distance distance henv

theorem getAt (h : Similar ρ m m') (distance : Nat) (name : String)
    (henv : Points ρ m env env') :
    AlikeAnswers (Holds ρ m) (m.arena.getAt env distance name)
      (m'.arena.getAt env' distance name) := by
  have hwalk := h.ancestor distance henv
  unfold Arena.getAt
  generalize m.arena.ancestor env distance = target? at hwalk
  generalize m'.arena.ancestor env' distance = target?' at hwalk
  cases hwalk with
  | fault hfault => exact .fault hfault
  | @answer target target' htarget =>
    obtain ⟨⟨f, hf⟩, rfl⟩ := htarget
    obtain ⟨c, hc⟩ := h.frames target f hf
    have hfind : (rename ρ f.values).find? name = (f.values.find? name).map (rename ρ) :=
      Bindings.find?_map _ _ _
    simp only [Arena.frame_of_frame? hf, Arena.frame_of_frame? hc, hfind]
    cases hvalue : f.values.find? name with
    | none => exact .fault rfl
    | some v => exact .answer ⟨Bindings.All.find? (h.tidy.frames target f hf) hvalue, rfl⟩

theorem holderAt (h : Similar ρ m m') (distance : Nat) (name : String)
    (henv : Points ρ m env env') :
    AlikeAnswers (Points ρ m) (m.arena.holderAt env distance name)
      (m'.arena.holderAt env' distance name) := by
  have hwalk := h.ancestor distance henv
  unfold Arena.holderAt
  generalize m.arena.ancestor env distance = target? at hwalk
  generalize m'.arena.ancestor env' distance = target?' at hwalk
  cases hwalk with
  | fault hfault => exact .fault hfault
  | @answer target target' htarget =>
    obtain ⟨⟨f, hf⟩, rfl⟩ := htarget
    obtain ⟨c, hc⟩ := h.frames target f hf
    have hcontains : (rename ρ f.values).contains name = f.values.contains name :=
      Bindings.contains_map _ _ _
    simp only [Arena.frame_of_frame? hf, Arena.frame_of_frame? hc, hcontains]
    cases f.values.contains name with
    | false => exact .fault rfl
    | true => exact .answer ⟨⟨f, hf⟩, rfl⟩

end Machine.Similar

/-! ### A name in the frame at hand -/

namespace Arena

variable {α : Type} {a : Arena α} {id : FrameId} {f : Frame α} {name : String}

/-- The search for a name ends at once in a frame that has it. -/
theorem holder_of_contains (hf : a.frame? id = some f) (h : f.values.contains name = true) :
    a.holder id name = .ok (some id) := by
  simp [holder, holderFrom, frame_of_frame? hf, h]

/-- The search for a name goes no further than the outermost frame. -/
theorem holder_outermost (hf : a.frame? id = some f) (houter : f.enclosing = none) :
    a.holder id name = .ok (if f.values.contains name then some id else none) := by
  simp only [holder, holderFrom, frame_of_frame? hf, houter]
  split <;> rfl

theorem get_outermost (hf : a.frame? id = some f) (houter : f.enclosing = none) :
    a.get id name = .ok (f.values.find? name) := by
  unfold get
  rw [holder_outermost hf houter]
  cases hfind : f.values.find? name with
  | none => simp [Bindings.contains, hfind, Except.map]
  | some v => simp [Bindings.contains, hfind, Except.map, valueIn?, hf]

end Arena

namespace Action

theorem follows_getAt (h : Similar ρ m m') (distance : Nat) (name : String)
    (henv : Points ρ m env env') :
    (getAt env distance name m).Follows A B ρ m (getAt env' distance name m') := by
  have hlook := h.getAt distance name henv
  unfold getAt
  generalize m.arena.getAt env distance name = answer at hlook
  generalize m'.arena.getAt env' distance name = answer' at hlook
  cases hlook with
  | fault hfault =>
    exact follows_fail h (congrArg (fun cause ↦ Failure.internal (.frame cause)) hfault)
  | answer hv => exact follows_pure h hv

theorem follows_assignAt (h : Similar ρ m m') (distance : Nat) (name : String) {v v' : Value}
    (henv : Points ρ m env env') (hv : Holds ρ m v v') :
    (assignAt env distance name v m).Follows A B ρ m (assignAt env' distance name v' m') := by
  have hlook := h.holderAt distance name henv
  unfold assignAt
  generalize m.arena.holderAt env distance name = answer at hlook
  generalize m'.arena.holderAt env' distance name = answer' at hlook
  cases hlook with
  | fault hfault =>
    exact follows_fail h (congrArg (fun cause ↦ Failure.internal (.frame cause)) hfault)
  | answer htarget => exact follows_define h htarget name hv

/-- A global is looked for in one frame only. -/
theorem follows_get_globals (h : Similar ρ m m') (name : String) (line : Nat) :
    (get Arena.globals name line m).Follows A B ρ m (get Arena.globals name line m') := by
  obtain ⟨f, hf, -, houter⟩ := h.tidy.sound.root
  obtain ⟨c, hc⟩ := h.frames _ f hf
  rw [h.globals, houter] at hc
  have hfind : (rename ρ f.values).find? name = (f.values.find? name).map (rename ρ) :=
    Bindings.find?_map _ _ _
  unfold get
  rw [Arena.get_outermost hf houter, Arena.get_outermost hc rfl, hfind]
  cases hvalue : f.values.find? name with
  | none => exact follows_fail h rfl
  | some v => exact follows_pure h ⟨Bindings.All.find? (h.tidy.frames _ f hf) hvalue, rfl⟩

theorem follows_assign_globals (h : Similar ρ m m') (name : String) (line : Nat) {v v' : Value}
    (hv : Holds ρ m v v') :
    (assign Arena.globals name v line m).Follows A B ρ m
      (assign Arena.globals name v' line m') := by
  obtain ⟨f, hf, -, houter⟩ := h.tidy.sound.root
  obtain ⟨c, hc⟩ := h.frames _ f hf
  rw [h.globals, houter] at hc
  have hcontains : (rename ρ f.values).contains name = f.values.contains name :=
    Bindings.contains_map _ _ _
  unfold assign
  rw [Arena.holder_outermost hf houter, Arena.holder_outermost hc rfl, hcontains]
  cases f.values.contains name with
  | false => exact follows_fail h rfl
  | true => exact follows_define h h.points_globals name hv

/-- Assigning to a name that stands in the frame at hand. -/
theorem follows_assign_of_contains (h : Similar ρ m m') (name : String) (line : Nat)
    {v v' : Value} {f : Frame Value} (hf : m.arena.frame? env = some f)
    (hname : f.values.contains name = true) (henv : ρ env = env') (hv : Holds ρ m v v') :
    (assign env name v line m).Follows A B ρ m (assign env' name v' line m') := by
  obtain ⟨c, hc⟩ := h.frames env f hf
  subst henv
  have hcontains : (rename ρ f.values).contains name = true :=
    (Bindings.contains_map _ _ _).trans hname
  unfold assign
  rw [Arena.holder_of_contains hf hname, Arena.holder_of_contains hc hcontains]
  exact follows_define h ⟨⟨f, hf⟩, rfl⟩ name hv

/-! ### Objects and their fields -/

theorem follows_newObject (h : Similar ρ m m') {c c' : Class} (hc : Holds ρ m c c') :
    (newObject c m).Follows A B ρ m (newObject c' m') := by
  obtain ⟨hwithin, rfl⟩ := hc
  have hsize : m'.fields.size = m.fields.size := by rw [h.fields, Array.size_map]
  unfold newObject
  rw [hsize]
  refine .done ⟨Arena.Continues.refl _, fun _ _ ↦ rfl, fun _ _ ↦ rfl⟩ { h with
    tidy := { h.tidy with fields := fun table htable ↦ ?_ }, fields := ?_ } ⟨hwithin, rfl⟩
  · rcases Array.mem_push.1 htable with hold | rfl
    · exact h.tidy.fields table hold
    · exact Bindings.all_empty _
  · change m'.fields.push .empty = (m.fields.push .empty).map (rename ρ)
    rw [Array.map_push, h.fields]
    rfl

theorem follows_field? (h : Similar ρ m m') {o o' : Object} (ho : Holds ρ m o o')
    (name : String) : (field? o name m).Follows A B ρ m (field? o' name m') := by
  obtain ⟨-, rfl⟩ := ho
  have hid : (rename ρ o).id = o.id := rfl
  unfold field?
  rw [h.fields, hid, Array.getElem?_map]
  refine follows_pure h ⟨fun v hv ↦ ?_, ?_⟩
  · obtain ⟨table, htable, hfind⟩ := Option.bind_eq_some_iff.1 hv
    exact Bindings.All.find? (h.tidy.fields table (Array.mem_of_getElem? htable)) hfind
  · cases m.fields[o.id]? with
    | none => rfl
    | some table => exact Bindings.find?_map _ _ _

theorem follows_setField (h : Similar ρ m m') {o o' : Object} (ho : Holds ρ m o o')
    (name : String) {v v' : Value} (hv : Holds ρ m v v') :
    (setField o name v m).Follows A B ρ m (setField o' name v' m') := by
  obtain ⟨-, rfl⟩ := ho
  obtain ⟨hwithin, rfl⟩ := hv
  have hid : (rename ρ o).id = o.id := rfl
  unfold setField
  rw [h.fields, hid]
  refine .done ⟨Arena.Continues.refl _, fun _ _ ↦ rfl, fun _ _ ↦ rfl⟩ { h with
    tidy := { h.tidy with fields := fun table htable ↦ ?_ }, fields := ?_ } ⟨trivial, rfl⟩
  · obtain ⟨i, hi, rfl⟩ := Array.mem_iff_getElem.1 htable
    rw [Array.getElem_modify]
    have hold := h.tidy.fields _ (Array.getElem_mem (by simpa using hi))
    split
    · exact Bindings.All.insert hold hwithin
    · exact hold
  · refine Array.ext (by simp) fun i hi hi' ↦ ?_
    simp only [Array.getElem_modify, Array.getElem_map]
    split
    · exact (Bindings.map_insert ..).symm
    · rfl

end Action

end Lox
