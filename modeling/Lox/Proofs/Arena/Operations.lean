import Mathlib.Data.Set.Card
import Lox.Proofs.Arena.Capture

/-!
Arenas under any use. The operations are done in any order and with any frames, whether they are
live, released, in use again or not yet there, so nothing is known of the chains; only searches that
do not end are left out. Nevertheless the free slots are the empty ones and the global frame
stands, so that frames are counted right and opened in empty slots (`Arena.Consistent`); and a frame
is gone only if it has been released, which a captured one never is (`Arena.Preserves`).
-/

set_option autoImplicit false

namespace Lox

/-- What can be done with an arena of frames. -/
inductive Operation (α : Type)
  | push (enclosing : FrameId)
  | capture (id : FrameId)
  | release (id : FrameId)
  | define (id : FrameId) (name : String) (value : α)
  | assign (id : FrameId) (name : String) (value : α)
  | assignAt (id : FrameId) (distance : Nat) (name : String) (value : α)
  | get (id : FrameId) (name : String)
  | getAt (id : FrameId) (distance : Nat) (name : String)

variable {α : Type} {a a' b : Arena α} {k : FrameId} {f : Frame α} {op : Operation α}
  {ops later : List (Operation α)}

/-- The arena after an operation, the same one if the operation fails; none if the operation does
not end. -/
def Operation.perform? (a : Arena α) : Operation α → Option (Arena α)
  | .push enclosing => some (a.push enclosing)
  | .capture id => some (a.capture id)
  | .release id => some (a.release id)
  | .define id name value =>
    match a.define id name value with
    | .ok a' => some a'
    | .error _ => some a
  | .assign id name value =>
    match a.assign id name value with
    | .ok (some a') => some a'
    | .error (.endlessChain _) => none
    | _ => some a
  | .assignAt id distance name value =>
    match a.assignAt id distance name value with
    | .ok a' => some a'
    | .error _ => some a
  | .get id name =>
    match a.get id name with
    | .error (.endlessChain _) => none
    | _ => some a
  | .getAt _ _ _ => some a

/-- The operation sets a name in the frame. -/
def Operation.Writes (a : Arena α) (k : FrameId) : Operation α → Prop
  | .define id _ _ => id = k
  | .assign id name _ => a.holder id name = .ok (some k)
  | .assignAt id distance name _ => a.holderAt id distance name = .ok k
  | _ => False

/-- The arena after operations one after another. -/
def Arena.run? (a : Arena α) : List (Operation α) → Option (Arena α)
  | [] => some a
  | op :: ops => (op.perform? a).bind fun a' ↦ a'.run? ops

/-! ### One operation -/

namespace Operation

/-- The ways in which an operation changes an arena. -/
inductive Changes (a : Arena α) : Operation α → Arena α → Prop
  | push (enclosing : FrameId) : Changes a (.push enclosing) (a.push enclosing)
  | capture (id : FrameId) : Changes a (.capture id) (a.capture id)
  | release (id : FrameId) : Changes a (.release id) (a.release id)
  | bind {op : Operation α} {k : FrameId} {f : Frame α} (name : String) (value : α)
    (hf : a.frame? k = some f) (hwrites : op.Writes a k) : Changes a op (a.bind k f name value)
  | nothing (op : Operation α) : Changes a op a

theorem exists_of_define {name : String} {value : α} (h : a.define k name value = .ok a') :
    ∃ f, a.frame? k = some f ∧ a' = a.bind k f name value := by
  unfold Arena.define Arena.frame at h
  cases hf : a.frame? k with
  | none => simp [hf] at h
  | some f => exact ⟨f, rfl, by simpa [hf, eq_comm] using h⟩

theorem exists_of_assign {id : FrameId} {name : String} {value : α}
    (h : a.assign id name value = .ok (some a')) :
    ∃ k f, a.holder id name = .ok (some k) ∧ a.frame? k = some f ∧ a' = a.bind k f name value := by
  unfold Arena.assign at h
  cases hholder : a.holder id name with
  | error fault => simp [hholder] at h
  | ok found =>
    cases found with
    | none => simp [hholder] at h
    | some k =>
      simp only [hholder] at h
      cases hdefine : a.define k name value with
      | error fault => simp [hdefine, Except.map] at h
      | ok a'' =>
        simp only [hdefine, Except.map, Except.ok.injEq, Option.some.injEq] at h
        obtain ⟨f, hf, hbind⟩ := exists_of_define hdefine
        exact ⟨k, f, rfl, hf, h ▸ hbind⟩

theorem exists_of_assignAt {id : FrameId} {distance : Nat} {name : String} {value : α}
    (h : a.assignAt id distance name value = .ok a') :
    ∃ k f, a.holderAt id distance name = .ok k ∧ a.frame? k = some f ∧
      a' = a.bind k f name value := by
  unfold Arena.assignAt at h
  cases hholder : a.holderAt id distance name with
  | error fault => simp [hholder] at h
  | ok k =>
    simp only [hholder] at h
    obtain ⟨f, hf, hbind⟩ := exists_of_define h
    exact ⟨k, f, rfl, hf, hbind⟩

theorem changes_of_perform? (h : op.perform? a = some a') : op.Changes a a' := by
  cases op with
  | push enclosing =>
    cases h
    exact .push enclosing
  | capture id =>
    cases h
    exact .capture id
  | release id =>
    cases h
    exact .release id
  | define id name value =>
    simp only [perform?] at h
    split at h
    next a'' hdefine =>
      cases h
      obtain ⟨f, hf, rfl⟩ := exists_of_define hdefine
      exact .bind name value hf rfl
    next =>
      cases h
      exact .nothing _
  | assign id name value =>
    simp only [perform?] at h
    split at h
    next a'' hassign =>
      cases h
      obtain ⟨k, f, hholder, hf, rfl⟩ := exists_of_assign hassign
      exact .bind name value hf hholder
    next => cases h
    next =>
      cases h
      exact .nothing _
  | assignAt id distance name value =>
    simp only [perform?] at h
    split at h
    next a'' hassign =>
      cases h
      obtain ⟨k, f, hholder, hf, rfl⟩ := exists_of_assignAt hassign
      exact .bind name value hf hholder
    next =>
      cases h
      exact .nothing _
  | get id name =>
    simp only [perform?] at h
    split at h
    next => cases h
    next =>
      cases h
      exact .nothing _
  | getAt id distance name =>
    cases h
    exact .nothing _

theorem Changes.filed (h : op.Changes a a') (hfiled : a.Filed) : a'.Filed := by
  cases h with
  | push enclosing => exact hfiled.push enclosing
  | capture id => exact hfiled.capture id
  | release id => exact hfiled.release id
  | bind name value hf => exact hfiled.setFrame hf _
  | nothing => exact hfiled

/-- An operation keeps every frame and what it lies in, but for a loose one that it releases; and
it keeps the values, except where it writes. -/
theorem Changes.kept (h : op.Changes a a') (hfiled : a.Filed) (hf : a.frame? k = some f) :
    (op = .release k ∧ f.captured = false) ∨
      ∃ f', a'.frame? k = some f' ∧ (f.captured = true → f'.captured = true) ∧
        f'.enclosing = f.enclosing ∧ (f'.values = f.values ∨ op.Writes a k) := by
  cases h with
  | push enclosing =>
    exact Or.inr ⟨f, (hfiled.frame?_push_of_live enclosing ⟨f, hf⟩).trans hf, id, rfl, Or.inl rfl⟩
  | capture id =>
    obtain ⟨marked, hmarked⟩ := a.frame?_capture id
    refine Or.inr ⟨{ f with captured := f.captured || marked k }, ?_, ?_, rfl, Or.inl rfl⟩
    · rw [hmarked, hf, Option.map_some]
    · intro hcaptured
      simp [hcaptured]
  | release id =>
    by_cases hgone : k = id ∧ f.captured = false
    · exact Or.inl ⟨hgone.1 ▸ rfl, hgone.2⟩
    · refine Or.inr ⟨f, ?_, fun hcaptured ↦ hcaptured, rfl, Or.inl rfl⟩
      rw [Arena.frame?_release, if_neg]
      · exact hf
      · rintro ⟨rfl, -, g, hg, hloose⟩
        rw [hf] at hg
        cases hg
        exact hgone ⟨rfl, hloose⟩
  | @bind _ target g name value hg hwrites =>
    rw [Arena.frame?_bind name value hg]
    by_cases heq : k = target
    · subst heq
      rw [hf] at hg
      cases hg
      exact Or.inr ⟨_, if_pos rfl, fun hcaptured ↦ hcaptured, rfl, Or.inr hwrites⟩
    · exact Or.inr ⟨f, (if_neg heq).trans hf, fun hcaptured ↦ hcaptured, rfl, Or.inl rfl⟩
  | nothing => exact Or.inr ⟨f, hf, fun hcaptured ↦ hcaptured, rfl, Or.inl rfl⟩

end Operation

/-! ### Operations one after another -/

namespace Arena

theorem run?_cons : a.run? (op :: ops) = some a' ↔
    ∃ b, op.perform? a = some b ∧ b.run? ops = some a' := by
  rw [run?, Option.bind_eq_some_iff]

theorem run?_filed (hfiled : a.Filed) (h : a.run? ops = some a') : a'.Filed := by
  induction ops generalizing a with
  | nil =>
    cases h
    exact hfiled
  | cons op ops ih =>
    obtain ⟨b, hb, h⟩ := run?_cons.1 h
    exact ih ((Operation.changes_of_perform? hb).filed hfiled) h

/-- Some operation sets a name in the frame, at its turn. -/
def Written (a : Arena α) (k : FrameId) (ops : List (Operation α)) : Prop :=
  ∃ before op after b, ops = before ++ op :: after ∧ a.run? before = some b ∧ op.Writes b k

theorem Written.cons (hb : op.perform? a = some b) (h : b.Written k ops) :
    a.Written k (op :: ops) := by
  obtain ⟨before, op', after, c, rfl, hc, hwrites⟩ := h
  exact ⟨op :: before, op', after, c, rfl, run?_cons.2 ⟨b, hb, hc⟩, hwrites⟩

/-- What operations leave of the frames. A frame is gone only if it was released. One that was
captured is there, as captured and in the same frame as before, and has the same values unless
an operation wrote in it. -/
structure Preserves (a : Arena α) (ops : List (Operation α)) (a' : Arena α) : Prop where
  live : ∀ k, a.Live k → a'.Live k ∨ .release k ∈ ops
  captured : ∀ k f, a.frame? k = some f → f.captured = true →
    ∃ f', a'.frame? k = some f' ∧ f'.captured = true ∧ f'.enclosing = f.enclosing ∧
      (f'.values = f.values ∨ a.Written k ops)

theorem preserves_run? (hfiled : a.Filed) (h : a.run? ops = some a') : a.Preserves ops a' := by
  induction ops generalizing a with
  | nil =>
    cases h
    exact ⟨fun k hk ↦ Or.inl hk, fun k f hf hcaptured ↦ ⟨f, hf, hcaptured, rfl, Or.inl rfl⟩⟩
  | cons op ops ih =>
    obtain ⟨b, hb, hrest⟩ := run?_cons.1 h
    have hchanges := Operation.changes_of_perform? hb
    have hlater := ih (hchanges.filed hfiled) hrest
    refine ⟨fun k hk ↦ ?_, fun k f hf hcaptured ↦ ?_⟩
    · obtain ⟨f, hf⟩ := hk
      rcases hchanges.kept hfiled hf with ⟨rfl, -⟩ | ⟨f', hf', -⟩
      · exact Or.inr (List.mem_cons_self ..)
      · exact (hlater.live k ⟨f', hf'⟩).imp_right (List.mem_cons_of_mem _)
    · rcases hchanges.kept hfiled hf with ⟨-, hloose⟩ | ⟨f', hf', hcaptured', houter, hvalues⟩
      · rw [hcaptured] at hloose
        cases hloose
      · obtain ⟨f'', hf'', hcaptured'', houter', hvalues'⟩ :=
          hlater.captured k f' hf' (hcaptured' hcaptured)
        refine ⟨f'', hf'', hcaptured'', houter'.trans houter, ?_⟩
        rcases hvalues with hsame | hwrites
        · exact hvalues'.imp (fun hsame' ↦ hsame'.trans hsame) fun hwritten ↦
            Written.cons hb hwritten
        · exact Or.inr ⟨[], op, ops, a, rfl, rfl, hwrites⟩

/-! ### Counting -/

/-- The slots there are. -/
def places (a : Arena α) : Finset FrameId :=
  (Finset.range a.slots.size).map ⟨FrameId.mk, fun _ _ h ↦ congrArg FrameId.slot h⟩

theorem mem_places : k ∈ a.places ↔ k.slot < a.slots.size := by
  rw [places, Finset.mem_map]
  constructor
  · rintro ⟨slot, hslot, rfl⟩
    exact Finset.mem_range.1 hslot
  · exact fun hlt ↦ ⟨k.slot, Finset.mem_range.2 hlt, rfl⟩

theorem card_places (a : Arena α) : a.places.card = a.slots.size := by simp [places]

namespace Filed

theorem card_free (h : a.Filed) : a.free.toFinset.card = a.free.length :=
  List.toFinset_card_of_nodup h.nodup_free

theorem free_subset (h : a.Filed) : a.free.toFinset ⊆ a.places := fun k hk ↦
  mem_places.2 ((h.mem_free k).1 (List.mem_toFinset.1 hk)).1

theorem length_free_le (h : a.Filed) : a.free.length ≤ a.slots.size :=
  calc a.free.length = a.free.toFinset.card := h.card_free.symm
    _ ≤ a.places.card := Finset.card_le_card h.free_subset
    _ = a.slots.size := a.card_places

theorem live_iff (h : a.Filed) : a.Live k ↔ k ∈ a.places \ a.free.toFinset := by
  rw [Finset.mem_sdiff, mem_places, List.mem_toFinset, h.mem_free]
  constructor
  · rintro ⟨f, hf⟩
    exact ⟨slot_lt_of_frame? hf, fun hdead ↦ by simp [hf] at hdead⟩
  · rintro ⟨hlt, hfilled⟩
    exact Option.ne_none_iff_exists'.1 fun hnone ↦ hfilled ⟨hlt, hnone⟩

theorem liveCount_eq (h : a.Filed) : a.liveCount = {k | a.Live k}.ncard := by
  have hlive : {k | a.Live k} = ↑(a.places \ a.free.toFinset) := by
    ext k
    exact h.live_iff
  calc a.liveCount = a.places.card - a.free.toFinset.card := by
        rw [h.card_free, card_places, liveCount]
    _ = (a.places \ a.free.toFinset).card := (Finset.card_sdiff_of_subset h.free_subset).symm
    _ = {k | a.Live k}.ncard := by rw [hlive, Set.ncard_coe_finset]

theorem liveCount_pos (h : a.Filed) (hk : a.Live k) : 1 ≤ a.liveCount := by
  have hmem := h.live_iff.1 hk
  calc 1 ≤ (a.places \ a.free.toFinset).card := Finset.card_pos.2 ⟨k, hmem⟩
    _ = a.places.card - a.free.toFinset.card := Finset.card_sdiff_of_subset h.free_subset
    _ = a.liveCount := by rw [h.card_free, card_places, liveCount]

end Filed

/-! ### Consistency -/

/-- An arena whose free slots are the empty ones, each listed once, and whose global frame is
captured. So frames are counted right, and are opened where there is none. -/
structure Consistent (a : Arena α) : Prop where
  mem_free : ∀ id, id ∈ a.free ↔ id.slot < a.slots.size ∧ a.frame? id = none
  nodup_free : a.free.Nodup
  globals_not_free : globals ∉ a.free
  captured_globals : a.Captured globals
  length_free_le : a.free.length ≤ a.slots.size
  count : a.liveCount = {k | a.Live k}.ncard
  count_pos : 1 ≤ a.liveCount
  reused_within : ∀ id rest, a.free = id :: rest → id.slot < a.slots.size
  opened_dead : ¬a.Live a.nextFrame
  opened : ∀ enclosing k, (a.push enclosing).frame? k =
    if k = a.nextFrame then some ⟨.empty, some enclosing, false⟩ else a.frame? k

theorem Filed.consistent (h : a.Filed) (hglobals : a.Captured globals) : a.Consistent where
  mem_free := h.mem_free
  nodup_free := h.nodup_free
  globals_not_free hmem := by
    obtain ⟨f, hf, -⟩ := hglobals
    have hnone := ((h.mem_free globals).1 hmem).2
    rw [hf] at hnone
    cases hnone
  captured_globals := hglobals
  length_free_le := h.length_free_le
  count := h.liveCount_eq
  count_pos := h.liveCount_pos hglobals.live
  reused_within id rest hfree := ((h.mem_free id).1 (by simp [hfree])).1
  opened_dead := h.not_live_nextFrame
  opened := h.frame?_push

/-- Whatever is done with an arena that began with the global frame alone, it is consistent, and
whatever is done with it then preserves its frames. -/
theorem operations_consistent (values : Bindings String α)
    (h : (ofGlobals values).run? ops = some a) (h' : a.run? later = some a') :
    a.Consistent ∧ a.Preserves later a' := by
  have hstart := sound_ofGlobals values
  have hfiled : a.Filed := run?_filed hstart.filed h
  obtain ⟨f, hf, hcaptured⟩ := hstart.captured_globals
  obtain ⟨f', hf', hcaptured', -⟩ := (preserves_run? hstart.filed h).captured globals f hf hcaptured
  exact ⟨hfiled.consistent ⟨f', hf', hcaptured'⟩, preserves_run? hfiled h'⟩

/-- A frame is released before the one in it, and again. -/
def releasedTwice : List (Operation Nat) :=
  [.push globals, .push ⟨1⟩, .release ⟨1⟩, .release ⟨1⟩]

/-- The slot is used again, for a frame in the one that lay in it, and both are captured. -/
def usedAgain : List (Operation Nat) :=
  [.push ⟨2⟩, .define ⟨2⟩ "a" 1, .assignAt ⟨1⟩ 1 "a" 2, .capture ⟨1⟩, .release ⟨1⟩,
    .assign ⟨2⟩ "a" 3, .release ⟨2⟩]

theorem operations_consistent_of_stale :
    ∃ a a', (ofGlobals .empty).run? releasedTwice = some a ∧ a.run? usedAgain = some a' ∧
      a.Consistent ∧ a.Preserves usedAgain a' := by
  obtain ⟨a, h⟩ : ∃ a, (ofGlobals .empty).run? releasedTwice = some a := ⟨_, rfl⟩
  obtain ⟨a', h'⟩ : ∃ a', a.run? usedAgain = some a' := by
    cases h
    exact ⟨_, rfl⟩
  exact ⟨a, a', h, h', operations_consistent .empty h h'⟩

end Arena

end Lox
