import Lox.Proofs.Calls.Counterparts

/-!
Actions of two machines of which the second one may bind methods early. Each action leads to such
machines again, so that constructs whose parts do alike do alike themselves.
-/

set_option autoImplicit false

namespace Lox

variable {w : Counterparts} {m m' : Machine} {k k' : FrameId} {v v' : Value}
  {left right : Option Failure → Prop}

/-- Machines that show the same, with frames and identities that are counterparts. -/
structure Machine.Abreast (w : Counterparts) (m m' : Machine) : Prop where
  arena : m.arena.Abreast w m'.arena
  size : m.fields.size = m'.fields.size
  fields : ∀ i : Nat, Option.Rel (Bindings.Pairs (Value.Pairs w.pairing)) m.fields[i]? m'.fields[i]?
  drawn : ∀ {id id'}, w.ids id id' → id < m.nextId ∧ id' < m'.nextId
  one : ∀ {a a' b b'}, w.ids a a' → w.ids b b' → (a = b ↔ a' = b')
  distances : m.distances = m'.distances
  sink : m.sink = m'.sink
  clock : m.clock = m'.clock

/-- Fields that belong together do so for good. -/
theorem Bindings.rel_extend {π π' : Pairing} {table table' : Option (Bindings String Value)}
    (h : Option.Rel (Bindings.Pairs (Value.Pairs π)) table table') (hπ : π.Extends π') :
    Option.Rel (Bindings.Pairs (Value.Pairs π')) table table' := by
  cases h with
  | none => exact .none
  | some htable => exact .some (htable.imp fun _ _ hv ↦ hv.extend hπ)

namespace Machine.Abreast

/-- Fields and identities are not touched by what happens to frames. -/
theorem of_arena (h : m.Abreast w m') {w₁ : Counterparts} (hgrows : w.pairing.Extends w₁.pairing)
    (hids : w₁.ids = w.ids) {a a' : Arena Value} (harena : a.Abreast w₁ a')
    (origins origins' : Array Origin) :
    Abreast w₁ { m with arena := a, origins := origins }
      { m' with arena := a', origins := origins' } where
  arena := harena
  size := h.size
  fields i := Bindings.rel_extend (h.fields i) hgrows
  drawn := hids ▸ h.drawn
  one := hids ▸ h.one
  distances := h.distances
  sink := h.sink
  clock := h.clock

/-- No frame is released. -/
theorem released (h : m.Abreast w m') (k : FrameId) :
    { m with arena := m.arena.release k } = m := by
  rw [h.arena.left.release]

theorem released' (h : m.Abreast w m') (k : FrameId) :
    { m' with arena := m'.arena.release k } = m' := by
  rw [h.arena.right.release]

/-- Both machines draw an identity. -/
theorem draw (h : m.Abreast w m') :
    Abreast (w.withId m.nextId m'.nextId) { m with nextId := m.nextId + 1 }
      { m' with nextId := m'.nextId + 1 } where
  arena := {
    left := h.arena.left
    right := h.arena.right
    frames := fun hk ↦ by
      obtain ⟨f, f', hf, hf', hpair⟩ := h.arena.frames hk
      exact ⟨f, f', hf, hf', hpair.extend (w.grows_withId _ _).extends_⟩
    one := h.arena.one
    globals := h.arena.globals
    waiting := h.arena.waiting }
  size := h.size
  fields i := Bindings.rel_extend (h.fields i) (w.grows_withId _ _).extends_
  drawn hid := by
    rcases hid with hid | ⟨rfl, rfl⟩
    · exact (h.drawn hid).imp Nat.lt_succ_of_lt Nat.lt_succ_of_lt
    · exact ⟨Nat.lt_succ_self _, Nat.lt_succ_self _⟩
  one ha hb := by
    rcases ha with ha | ⟨rfl, rfl⟩ <;> rcases hb with hb | ⟨rfl, rfl⟩
    · exact h.one ha hb
    · exact iff_of_false (Nat.ne_of_lt (h.drawn ha).1) (Nat.ne_of_lt (h.drawn ha).2)
    · exact iff_of_false (Nat.ne_of_gt (h.drawn hb).1) (Nat.ne_of_gt (h.drawn hb).2)
    · exact iff_of_true rfl rfl
  distances := h.distances
  sink := h.sink
  clock := h.clock

/-- The second machine draws an identity that has no counterpart. -/
theorem draw' (h : m.Abreast w m') : Abreast w m { m' with nextId := m'.nextId + 1 } :=
  { h with drawn := fun hid ↦ (h.drawn hid).imp_right Nat.lt_succ_of_lt }

end Machine.Abreast

namespace Comparison

/-- Direct forms on the first machine, and the trees themselves on the second one. -/
def direct (left right : Option Failure → Prop) : Comparison where
  toMatching := .direct
  World := Counterparts
  Grows := Counterparts.Grows
  frames := Counterparts.frames
  ids := Counterparts.ids
  machines := Machine.Abreast
  failures cause cause' := cause.unslotted = cause'.unslotted
  lines := Eq
  nodes := Eq
  left := left
  right := right

theorem direct_push (origin origin' : Origin) (h : m.Abreast w m') (hk : w.frames k k') :
    (direct left right).Alike w Counterparts.frames (Action.push origin k m)
      (Action.push origin' k' m') :=
  have hgrows := w.grows_withFrame m.arena.nextFrame m'.arena.nextFrame
  .done hgrows (h.of_arena hgrows.extends_ rfl (h.arena.push hk) _ _) (Or.inr ⟨rfl, rfl⟩)

/-- The release of a frame by one of two machines makes no difference. -/
theorem direct_releasing_left {α β : Type} {answers : Counterparts → α → β → Prop} {x : Action α}
    {o' : Outcome β} (hx : (direct left right).Alike w answers (x m) o') :
    (direct left right).Alike w answers (Action.releasing k x m) o' := by
  unfold Action.releasing
  generalize x m = o at hx
  cases hx with
  | outOfFuel => exact .outOfFuel
  | failed hgrows hm hcause =>
    dsimp only
    rw [Machine.Abreast.released hm]
    exact .failed hgrows hm hcause
  | done hgrows hm ha =>
    dsimp only
    rw [Machine.Abreast.released hm]
    exact .done hgrows hm ha
  | left hstop hexcused =>
    cases o with
    | done a m₁ => cases hstop
    | _ => exact .left hstop hexcused
  | right hstop hexcused => exact .right hstop hexcused

theorem direct_releasing_right {α β : Type} {answers : Counterparts → α → β → Prop}
    {o : Outcome α} {x' : Action β} (hx : (direct left right).Alike w answers o (x' m')) :
    (direct left right).Alike w answers o (Action.releasing k' x' m') := by
  unfold Action.releasing
  generalize x' m' = o' at hx
  cases hx with
  | outOfFuel => exact .outOfFuel
  | failed hgrows hm hcause =>
    dsimp only
    rw [Machine.Abreast.released' hm]
    exact .failed hgrows hm hcause
  | done hgrows hm ha =>
    dsimp only
    rw [Machine.Abreast.released' hm]
    exact .done hgrows hm ha
  | left hstop hexcused => exact .left hstop hexcused
  | right hstop hexcused =>
    cases o' with
    | done a m₁ => cases hstop
    | _ => exact .right hstop hexcused

theorem direct_define (name : String) (h : m.Abreast w m') (hk : w.frames k k')
    (hv : v.Pairs w.pairing v') :
    (direct left right).Alike w (anything _) (Action.define k name v m)
      (Action.define k' name v' m') := by
  obtain ⟨f, f', hf, hf', hpair⟩ := h.arena.frames hk
  simp only [Action.define, Arena.frame_of_frame? hf, Arena.frame_of_frame? hf']
  exact .done (.refl w) (h.of_arena (Counterparts.Grows.refl w).extends_ rfl
    (h.arena.bind hk hf hf' hpair name hv) _ _) trivial

theorem direct_getAt (distance : Nat) (name : String) (h : m.Abreast w m') (hk : w.frames k k') :
    (direct left right).Alike w (values _) (Action.getAt k distance name m)
      (Action.getAt k' distance name m') := by
  have hanswers := h.arena.getAt distance name hk
  unfold Action.getAt
  generalize m.arena.getAt k distance name = v? at hanswers
  generalize m'.arena.getAt k' distance name = v?' at hanswers
  cases hanswers with
  | fault hfault =>
    exact .failed (.refl w) h (congrArg (fun fault ↦ Failure.internal (.frame fault)) hfault)
  | answer hv => exact .done (.refl w) h hv

theorem direct_assignAt (distance : Nat) (name : String) (h : m.Abreast w m')
    (hk : w.frames k k') (hv : v.Pairs w.pairing v') :
    (direct left right).Alike w (anything _) (Action.assignAt k distance name v m)
      (Action.assignAt k' distance name v' m') := by
  have hanswers := h.arena.holderAt distance name hk
  unfold Action.assignAt
  generalize m.arena.holderAt k distance name = target? at hanswers
  generalize m'.arena.holderAt k' distance name = target?' at hanswers
  cases hanswers with
  | fault hfault =>
    exact .failed (.refl w) h (congrArg (fun fault ↦ Failure.internal (.frame fault)) hfault)
  | answer htarget => exact direct_define name h htarget hv

theorem direct_get (name : String) (line : Nat) (h : m.Abreast w m') (hk : w.frames k k') :
    (direct left right).Alike w (values _) (Action.get k name line m)
      (Action.get k' name line m') := by
  have hanswers := h.arena.get name hk
  unfold Action.get
  generalize m.arena.get k name = v? at hanswers
  generalize m'.arena.get k' name = v?' at hanswers
  cases hanswers with
  | fault hfault =>
    exact .failed (.refl w) h (congrArg (fun fault ↦ Failure.internal (.frame fault)) hfault)
  | answer hfound =>
    cases hfound with
    | none => exact .failed (.refl w) h rfl
    | some hv => exact .done (.refl w) h hv

theorem direct_assign (name : String) (line : Nat) (h : m.Abreast w m') (hk : w.frames k k')
    (hv : v.Pairs w.pairing v') :
    (direct left right).Alike w (anything _) (Action.assign k name v line m)
      (Action.assign k' name v' line m') := by
  have hanswers := h.arena.holder name hk
  unfold Action.assign
  generalize m.arena.holder k name = target? at hanswers
  generalize m'.arena.holder k' name = target?' at hanswers
  cases hanswers with
  | fault hfault =>
    exact .failed (.refl w) h (congrArg (fun fault ↦ Failure.internal (.frame fault)) hfault)
  | answer hfound =>
    cases hfound with
    | none => exact .failed (.refl w) h rfl
    | some htarget => exact direct_define name h htarget hv

theorem direct_newObject {c c' : Class} (h : m.Abreast w m') (hc : c.Pairs w.pairing c') :
    (direct left right).Alike w (objects _) (Action.newObject c m)
      (Action.newObject c' m') := by
  refine .done (.refl w) { h with size := ?_, fields := fun i ↦ ?_ } ⟨h.size, hc⟩
  · exact (Array.size_push ..).trans
      ((congrArg (· + 1) h.size).trans (Array.size_push ..).symm)
  · dsimp only
    rw [Array.getElem?_push, Array.getElem?_push, h.size]
    split
    · exact .some .nil
    · exact h.fields i

theorem direct_field? (name : String) {o o' : Object} (h : m.Abreast w m')
    (ho : o.Pairs w.pairing o') :
    (direct left right).Alike w (options (values _)) (Action.field? o name m)
      (Action.field? o' name m') := by
  refine .done (.refl w) h ?_
  have hfields := h.fields o.id
  rw [← ho.id]
  generalize m.fields[o.id]? = table? at hfields
  generalize m'.fields[o.id]? = table?' at hfields
  cases hfields with
  | none => exact .none
  | some htable => exact htable.find? name

theorem direct_setField (name : String) {o o' : Object} (h : m.Abreast w m')
    (ho : o.Pairs w.pairing o') (hv : v.Pairs w.pairing v') :
    (direct left right).Alike w (anything _) (Action.setField o name v m)
      (Action.setField o' name v' m') := by
  refine .done (.refl w) { h with size := ?_, fields := fun i ↦ ?_ } trivial
  · exact (Array.size_modify ..).trans (h.size.trans (Array.size_modify ..).symm)
  · have hfields := h.fields i
    dsimp only
    rw [Array.getElem?_modify, Array.getElem?_modify, ho.id]
    split
    · generalize m.fields[i]? = table? at hfields
      generalize m'.fields[i]? = table?' at hfields
      cases hfields with
      | none => exact .none
      | some htable => exact .some (htable.insert name hv)
    · exact hfields

theorem direct_write (text : String) (h : m.Abreast w m') :
    (direct left right).Alike w (anything _) (Action.write text m)
      (Action.write text m') := by
  unfold Action.write
  dsimp only
  rw [h.sink]
  split
  · exact .done (.refl w) { h with sink := rfl } trivial
  · exact .failed (.refl w) { h with sink := rfl } rfl

theorem lawful_direct : (direct left right).Lawful where
  refl := Counterparts.Grows.refl
  trans := Counterparts.Grows.trans
  extends_ := Counterparts.Grows.extends_
  one h := h.one
  runtime cause h := congrArg (fun line ↦ Failure.runtime line cause) h
  unresolvedSuper h := congrArg (fun line ↦ Failure.internal (.unresolvedSuper line)) h
  internal _ := rfl
  globals h := h.arena.globals
  distance? h hid := by
    cases hid
    rw [h.distances]
  push := direct_push
  releasing _ hx := direct_releasing_right (direct_releasing_left hx)
  capture h _ := .done (.refl _) (h.of_arena (Counterparts.Grows.refl _).extends_ rfl
    (h.arena.capture _ _) _ _) trivial
  define := direct_define
  getAt := direct_getAt
  assignAt := direct_assignAt
  get name h hk hline := hline ▸ direct_get name _ h hk
  assign name h hk hv hline := hline ▸ direct_assign name _ h hk hv
  fresh h := .done (Counterparts.grows_withId _ _ _) h.draw (Or.inr ⟨rfl, rfl⟩)
  newObject := direct_newObject
  field? name h ho := direct_field? name h ho
  setField name h ho hv := direct_setField name h ho hv
  now h := .done (.refl _) { h with clock := congrArg Clock.tick h.clock }
    (congrArg Clock.now h.clock)
  write := direct_write

end Comparison

end Lox
