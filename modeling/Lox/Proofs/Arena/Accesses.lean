import Mathlib.Data.Fintype.Pigeonhole
import Lox.Machine
import Lox.Proofs.Arena.Frames
import Lox.Proofs.Bindings

/-!
Reading and writing variables. Looking a name up from a frame outwards and setting it from there
end at the same frame, the nearest one on the chain that has the name, and that is also the frame
to which reading and setting at a distance go, if the distance is the number of links to it. A
setting changes one name in one frame, whichever way that frame was reached (`Arena.Sets`), and one
that fails changes nothing. On a chain that loops a search need not end, so arenas are taken to be
without loops (`Arena.Loopless`); links may dangle, and chains end early.
-/

set_option autoImplicit false

namespace Lox

namespace Arena

variable {α : Type} {a a' : Arena α} {start start' id k l target outer : FrameId}
  {total total' d e links : Nat} {f : Frame α} {name : String} {value : α}
  {answer : Except Fault (Option FrameId)}

/-! ### Links -/

theorem frame_of_frame? (h : a.frame? id = some f) : a.frame id = .ok f := by
  simp [Arena.frame, h]

theorem frame_of_none (h : a.frame? id = none) : a.frame id = .error (.dangling id) := by
  simp [Arena.frame, h]

/-- Where a walk was to begin and how long it was to be matters only if it fails. -/
theorem ancestorFrom_ok (h : a.ancestorFrom start total d id = .ok k) :
    a.ancestorFrom start' total' d id = .ok k := by
  induction d generalizing id with
  | zero => exact h
  | succ d ih =>
    simp only [ancestorFrom] at h ⊢
    cases hf : a.frame id with
    | error fault => simp [hf] at h
    | ok f =>
      simp only [hf] at h ⊢
      cases houter : f.enclosing with
      | none => simp [houter] at h
      | some outer =>
        simp only [houter] at h ⊢
        exact ih h

theorem ancestor_succ_iff :
    a.ancestor id (d + 1) = .ok k ↔
      ∃ f outer, a.frame? id = some f ∧ f.enclosing = some outer ∧ a.ancestor outer d = .ok k := by
  have hstep : a.ancestor id (d + 1) = a.ancestorFrom id (d + 1) (d + 1) id := rfl
  rw [hstep, ancestorFrom]
  cases hf : a.frame? id with
  | none => simp [frame_of_none hf]
  | some f =>
    rw [frame_of_frame? hf]
    cases houter : f.enclosing with
    | none => simp [houter]
    | some outer =>
      have hfrom : a.ancestorFrom id (d + 1) d outer = .ok k ↔ a.ancestor outer d = .ok k :=
        ⟨ancestorFrom_ok, ancestorFrom_ok⟩
      simpa [houter] using hfrom

/-- A walk may be broken off and taken up again. -/
theorem ancestor_add :
    a.ancestor id (d + e) = .ok k ↔ ∃ l, a.ancestor id d = .ok l ∧ a.ancestor l e = .ok k := by
  induction d generalizing id with
  | zero => simp [ancestor, ancestorFrom]
  | succ d ih =>
    rw [Nat.add_right_comm, ancestor_succ_iff]
    constructor
    · rintro ⟨f, outer, hf, houter, h⟩
      obtain ⟨l, hl, hk⟩ := ih.1 h
      exact ⟨l, ancestor_succ_iff.2 ⟨f, outer, hf, houter, hl⟩, hk⟩
    · rintro ⟨l, hl, hk⟩
      obtain ⟨f, outer, hf, houter, h⟩ := ancestor_succ_iff.1 hl
      exact ⟨f, outer, hf, houter, ih.2 ⟨l, h, hk⟩⟩

/-- One link further out. -/
theorem ancestor_succ (h : a.ancestor id d = .ok k) (hf : a.frame? k = some f)
    (houter : f.enclosing = some outer) : a.ancestor id (d + 1) = .ok outer :=
  ancestor_add.2 ⟨k, h, ancestor_succ_iff.2 ⟨f, outer, hf, houter, rfl⟩⟩

/-- Walks depend on nothing but the links. -/
theorem ancestor_congr
    (h : ∀ k, (a'.frame? k).map Frame.enclosing = (a.frame? k).map Frame.enclosing)
    (id : FrameId) (d : Nat) : a'.ancestor id d = a.ancestor id d := by
  have hfrom (total d : Nat) (k : FrameId) :
      a'.ancestorFrom id total d k = a.ancestorFrom id total d k := by
    induction d generalizing k with
    | zero => rfl
    | succ d ih =>
      have hk := h k
      simp only [ancestorFrom, frame]
      cases hf : a.frame? k with
      | none =>
        rw [hf, Option.map_none, Option.map_eq_none_iff] at hk
        simp only [hk]
      | some f =>
        rw [hf, Option.map_some] at hk
        obtain ⟨f', hf', henclosing⟩ := Option.map_eq_some_iff.1 hk
        simp only [hf', henclosing, ih]
  exact hfrom d d id

/-! ### Chains without loops -/

/-- No frame lies within itself. -/
def Loopless (a : Arena α) : Prop := ∀ id links, 0 < links → a.ancestor id links ≠ .ok id

/-- An arena has no loops if its links lead downwards by some measure. -/
theorem loopless_of_links (rank : FrameId → Nat)
    (h : ∀ k f outer, a.frame? k = some f → f.enclosing = some outer → rank outer < rank k) :
    a.Loopless := by
  have hbelow (links : Nat) {id k : FrameId} (hk : a.ancestor id links = .ok k) :
      rank k ≤ rank id := by
    induction links generalizing id with
    | zero => exact (Except.ok.inj hk) ▸ Nat.le_refl _
    | succ links ih =>
      obtain ⟨f, outer, hf, houter, hwalk⟩ := ancestor_succ_iff.1 hk
      exact (ih hwalk).trans (h id f outer hf houter).le
  intro id links hlinks hid
  obtain ⟨links, rfl⟩ := Nat.exists_eq_add_one.2 hlinks
  obtain ⟨f, outer, hf, houter, hwalk⟩ := ancestor_succ_iff.1 hid
  exact absurd (hbelow links hwalk) (Nat.not_le.2 (h id f outer hf houter))

/-- On a chain with more frames than there are slots one frame comes twice. -/
theorem Loopless.ends (h : a.Loopless) (id : FrameId) :
    ¬∀ d < a.slots.size + 1, ∃ k, a.ancestor id d = .ok k ∧ a.Live k := by
  intro hendless
  choose reached hreached using fun d : Fin (a.slots.size + 1) ↦ hendless d d.isLt
  have hlt (d : Fin (a.slots.size + 1)) : (reached d).slot < a.slots.size :=
    let ⟨_, hf⟩ := (hreached d).2
    slot_lt_of_frame? hf
  obtain ⟨i, j, hne, heq⟩ := Fintype.exists_ne_map_eq_of_card_lt
    (fun d ↦ (⟨(reached d).slot, hlt d⟩ : Fin a.slots.size)) (by simp)
  have hsame : reached i = reached j := congrArg FrameId.mk (Fin.mk.inj heq)
  have hloop (i j : Fin (a.slots.size + 1)) (hij : i < j) (hsame : reached i = reached j) :
      False := by
    have hsplit : (i : Nat) + (j - i) = j := by omega
    obtain ⟨l, hl, hk⟩ := ancestor_add.1 (hsplit.symm ▸ (hreached j).1)
    rw [(hreached i).1] at hl
    cases hl
    exact h (reached i) (j - i) (by omega) (hsame ▸ hk)
  rcases Fin.lt_or_lt_of_ne hne with hij | hji
  · exact hloop i j hij hsame
  · exact hloop j i hji hsame.symm

/-! ### Searches -/

/-- The frame so many links out from `id` has the name, and none before it has. -/
structure Nearest (a : Arena α) (id : FrameId) (name : String) (links : Nat)
    (target : FrameId) : Prop where
  reached : a.ancestor id links = .ok target
  bound : (a.valueIn? target name).isSome = true
  nearer : ∀ d < links, ∀ k, a.ancestor id d = .ok k → a.valueIn? k name = none

/-- No frame that can be reached from `id` has the name. -/
def Absent (a : Arena α) (id : FrameId) (name : String) : Prop :=
  ∀ d k, a.ancestor id d = .ok k → a.valueIn? k name = none

/-- How the search for a name ends on a chain that ends. -/
inductive Found (a : Arena α) (id : FrameId) (name : String) :
    Except Fault (Option FrameId) → Prop
  | nearest {links : Nat} {target : FrameId} (h : a.Nearest id name links target) :
    Found a id name (.ok (some target))
  | absent (h : a.Absent id name) : Found a id name (.ok none)
  | lost {k : FrameId} (h : a.Absent id name) (hdead : a.frame? k = none) :
    Found a id name (.error (.dangling k))

theorem Absent.of_outer (hf : a.frame? id = some f) (houter : f.enclosing = some outer)
    (hname : f.values.find? name = none) (h : a.Absent outer name) : a.Absent id name := by
  intro d k hk
  cases d with
  | zero =>
    cases hk
    simp [valueIn?, hf, hname]
  | succ d =>
    obtain ⟨g, next, hg, hnext, hwalk⟩ := ancestor_succ_iff.1 hk
    rw [hf] at hg
    cases hg
    rw [houter] at hnext
    cases hnext
    exact h d k hwalk

theorem Nearest.of_outer (hf : a.frame? id = some f) (houter : f.enclosing = some outer)
    (hname : f.values.find? name = none) (h : a.Nearest outer name links target) :
    a.Nearest id name (links + 1) target := by
  refine ⟨ancestor_succ_iff.2 ⟨f, outer, hf, houter, h.reached⟩, h.bound, fun d hd k hk ↦ ?_⟩
  cases d with
  | zero =>
    cases hk
    simp [valueIn?, hf, hname]
  | succ d =>
    obtain ⟨g, next, hg, hnext, hwalk⟩ := ancestor_succ_iff.1 hk
    rw [hf] at hg
    cases hg
    rw [houter] at hnext
    cases hnext
    exact h.nearer d (by omega) k hwalk

theorem Found.of_outer (hf : a.frame? id = some f) (houter : f.enclosing = some outer)
    (hname : f.values.find? name = none) (h : a.Found outer name answer) :
    a.Found id name answer := by
  cases h with
  | nearest h => exact .nearest (h.of_outer hf houter hname)
  | absent h => exact .absent (h.of_outer hf houter hname)
  | lost h hdead => exact .lost (h.of_outer hf houter hname) hdead

/-- A search ends, or else there was a frame at each of its steps. -/
theorem found_or_live (a : Arena α) (start id : FrameId) (name : String) (steps : Nat) :
    a.Found id name (a.holderFrom start name steps id) ∨
      ∀ d < steps, ∃ k, a.ancestor id d = .ok k ∧ a.Live k := by
  induction steps generalizing id with
  | zero => exact Or.inr fun d hd ↦ absurd hd (Nat.not_lt_zero d)
  | succ steps ih =>
    rw [holderFrom]
    cases hf : a.frame? id with
    | none =>
      refine Or.inl (frame_of_none hf ▸ .lost (fun d k hk ↦ ?_) hf)
      cases d with
      | zero =>
        cases hk
        simp [valueIn?, hf]
      | succ d =>
        obtain ⟨f, -, hsome, -⟩ := ancestor_succ_iff.1 hk
        rw [hf] at hsome
        cases hsome
    | some f =>
      rw [frame_of_frame? hf]
      dsimp only
      cases hname : f.values.find? name with
      | some v =>
        rw [if_pos (by simp [Bindings.contains, hname])]
        have hnearest : a.Nearest id name 0 id :=
          ⟨rfl, by simp [valueIn?, hf, hname], fun d hd ↦ absurd hd (Nat.not_lt_zero d)⟩
        exact Or.inl (.nearest hnearest)
      | none =>
        rw [if_neg (by simp [Bindings.contains, hname])]
        cases houter : f.enclosing with
        | none =>
          refine Or.inl (.absent fun d k hk ↦ ?_)
          cases d with
          | zero =>
            cases hk
            simp [valueIn?, hf, hname]
          | succ d =>
            obtain ⟨g, outer, hg, hout, -⟩ := ancestor_succ_iff.1 hk
            rw [hf] at hg
            cases hg
            rw [houter] at hout
            cases hout
        | some outer =>
          refine (ih outer).imp (fun h ↦ h.of_outer hf houter hname) fun h d hd ↦ ?_
          cases d with
          | zero => exact ⟨id, rfl, f, hf⟩
          | succ d =>
            obtain ⟨k, hk, hlive⟩ := h d (by omega)
            exact ⟨k, ancestor_succ_iff.2 ⟨f, outer, hf, houter, hk⟩, hlive⟩

theorem Loopless.found (h : a.Loopless) (id : FrameId) (name : String) :
    a.Found id name (a.holder id name) :=
  (found_or_live a id id name _).resolve_right (h.ends id)

/-! ### Settings -/

/-- `a'` is `a` with a name set in a frame: reading at any distance from any frame gives the new
value if it comes to this frame and asks for this name, and what it gave before if not. -/
structure Sets (a : Arena α) (target : FrameId) (name : String) (value : α)
    (a' : Arena α) : Prop where
  there : ∀ id d, a.ancestor id d = .ok target → a'.getAt id d name = .ok value
  elsewhere : ∀ id d x, ¬(a.ancestor id d = .ok target ∧ x = name) →
    a'.getAt id d x = a.getAt id d x
  links : ∀ k, (a'.frame? k).map Frame.enclosing = (a.frame? k).map Frame.enclosing
  flags : ∀ k, (a'.frame? k).map Frame.captured = (a.frame? k).map Frame.captured
  free : a'.free = a.free
  retains : a'.retains = a.retains

theorem sets_bind (hf : a.frame? target = some f) (name : String) (value : α) :
    a.Sets target name value (a.bind target f name value) := by
  have hframe := frame?_bind name value hf
  have hlinks (k : FrameId) : ((a.bind target f name value).frame? k).map Frame.enclosing =
      (a.frame? k).map Frame.enclosing := by
    rw [hframe]
    split
    next heq => simp [heq, hf]
    next => rfl
  have hwalk := ancestor_congr hlinks
  refine ⟨fun id d hreach ↦ ?_, fun id d x hother ↦ ?_, hlinks, fun k ↦ ?_, rfl, rfl⟩
  · unfold getAt
    rw [hwalk, hreach]
    simp [frame, hframe]
  · unfold getAt
    rw [hwalk]
    cases hreach : a.ancestor id d with
    | error fault => rfl
    | ok k =>
      by_cases heq : k = target
      · subst heq
        have hx : name ≠ x := fun h ↦ hother ⟨hreach, h.symm⟩
        simp [frame, hframe, hf, hx]
      · simp [frame, hframe, heq]
  · rw [hframe]
    split
    next heq => simp [heq, hf]
    next => rfl

/-- Reading and setting at a distance come to the same frame, or both fail. -/
theorem getAt_holderAt (a : Arena α) (id : FrameId) (d : Nat) (name : String) :
    (∃ fault fault', a.getAt id d name = .error fault ∧ a.holderAt id d name = .error fault') ∨
      ∃ target f old, a.ancestor id d = .ok target ∧ a.frame? target = some f ∧
        a.getAt id d name = .ok old ∧ a.holderAt id d name = .ok target := by
  unfold getAt holderAt
  cases hwalk : a.ancestor id d with
  | error fault => exact Or.inl ⟨fault, fault, rfl, rfl⟩
  | ok target =>
    cases hf : a.frame? target with
    | none =>
      simp only [frame_of_none hf]
      exact Or.inl ⟨_, _, rfl, rfl⟩
    | some f =>
      simp only [frame_of_frame? hf]
      cases hname : f.values.find? name with
      | none => exact Or.inl ⟨_, _, rfl, if_neg (by simp [Bindings.contains, hname])⟩
      | some old =>
        exact Or.inr ⟨target, f, old, rfl, hf, rfl, if_pos (by simp [Bindings.contains, hname])⟩

/-- The nearest frame with a name is live, and reading at its distance gives the name's value. -/
theorem Nearest.getAt (h : a.Nearest id name links target) :
    ∃ f old, a.frame? target = some f ∧ f.values.find? name = some old ∧
      a.valueIn? target name = some old ∧ a.getAt id links name = .ok old := by
  obtain ⟨old, hold⟩ := Option.isSome_iff_exists.1 h.bound
  obtain ⟨f, hf, hfind⟩ := Option.bind_eq_some_iff.1 hold
  refine ⟨f, old, hf, hfind, hold, ?_⟩
  unfold Arena.getAt
  simp [h.reached, frame_of_frame? hf, hfind]

end Arena

/-! ### The actions of a program -/

namespace Action

variable {m : Machine} {env target : FrameId} {f : Frame Value}

theorem define_of_frame? (hf : m.arena.frame? target = some f) (name : String) (v : Value) :
    define target name v m = .done () { m with arena := m.arena.bind target f name v } := by
  simp [define, Arena.frame_of_frame? hf]

/-- Reads and writes of variables agree. By name from a frame outwards, reading and setting fail
with one and the same error and leave the machine as it was, when no frame that can be reached has
the name; or else reading gives the value in the nearest frame that has it, which is what reading at
the distance of that frame gives, and setting sets it there. At a distance, the one succeeds
if the other does, and then the setting is in the frame at that distance. In the frame itself a
name is set, or the machine stays as it was. -/
theorem reads_and_writes_agree (h : m.arena.Loopless) (env : FrameId) (name : String)
    (v : Value) :
    (∀ line,
      (∃ cause, m.arena.Absent env name ∧
        (cause = .runtime line (.undefinedVariable name) ∨
          ∃ k, m.arena.frame? k = none ∧ cause = .internal (.frame (.dangling k))) ∧
        get env name line m = .failed cause m ∧ assign env name v line m = .failed cause m) ∨
      ∃ links target old arena, m.arena.Nearest env name links target ∧
        get env name line m = .done old m ∧ getAt env links name m = .done old m ∧
        assign env name v line m = .done () { m with arena := arena } ∧
        m.arena.Sets target name v arena) ∧
    (∀ distance,
      (∃ cause cause', getAt env distance name m = .failed cause m ∧
        assignAt env distance name v m = .failed cause' m) ∨
      ∃ target old arena, m.arena.ancestor env distance = .ok target ∧
        getAt env distance name m = .done old m ∧
        assignAt env distance name v m = .done () { m with arena := arena } ∧
        m.arena.Sets target name v arena) ∧
    ((∃ cause, define env name v m = .failed cause m) ∨
      ∃ arena, define env name v m = .done () { m with arena := arena } ∧
        m.arena.Sets env name v arena) := by
  refine ⟨fun line ↦ ?byName, fun distance ↦ ?atDistance, ?here⟩
  case byName =>
    have hfound := h.found env name
    unfold get assign Arena.get
    generalize m.arena.holder env name = answer at hfound
    cases hfound with
    | @nearest links target hnearest =>
      obtain ⟨f, old, hf, -, hold, hgetAt⟩ := hnearest.getAt
      refine Or.inr ⟨links, target, old, _, hnearest, ?_, ?_, define_of_frame? hf name v,
        Arena.sets_bind hf name v⟩
      · simp [Except.map, hold]
      · simp [getAt, hgetAt]
    | absent habsent => exact Or.inl ⟨_, habsent, Or.inl rfl, rfl, rfl⟩
    | @lost k habsent hdead => exact Or.inl ⟨_, habsent, Or.inr ⟨k, hdead, rfl⟩, rfl, rfl⟩
  case atDistance =>
    unfold getAt assignAt
    rcases m.arena.getAt_holderAt env distance name with
      ⟨fault, fault', hgetAt, hholder⟩ | ⟨target, f, old, hwalk, hf, hgetAt, hholder⟩
    · rw [hgetAt, hholder]
      exact Or.inl ⟨_, _, rfl, rfl⟩
    · rw [hgetAt, hholder]
      exact Or.inr ⟨target, old, _, hwalk, rfl, define_of_frame? hf name v,
        Arena.sets_bind hf name v⟩
  case here =>
    cases hf : m.arena.frame? env with
    | none => exact Or.inl ⟨_, by simp [define, Arena.frame_of_none hf]; rfl⟩
    | some f => exact Or.inr ⟨_, define_of_frame? hf name v, Arena.sets_bind hf name v⟩

/-- Two blocks beside each other, in a global frame that has one name. -/
def siblings : Machine :=
  { Machine.initial .unlimited .stopped with
    arena := ((Arena.ofGlobals ⟨[("a", .nil)]⟩).push Arena.globals).push Arena.globals }

theorem loopless_siblings : siblings.arena.Loopless := by
  have hglobals := (Arena.sound_ofGlobals (⟨[("a", .nil)]⟩ : Bindings String Value)).filed
  refine Arena.loopless_of_links FrameId.slot fun k f outer hf houter ↦ ?_
  change (((Arena.ofGlobals _).push _).push _).frame? k = _ at hf
  rw [(hglobals.push _).frame?_push, hglobals.frame?_push, Arena.frame?_ofGlobals] at hf
  split at hf
  next heq =>
    cases hf
    cases houter
    subst heq
    decide
  next =>
    split at hf
    next heq =>
      cases hf
      cases houter
      subst heq
      decide
    next =>
      split at hf
      · cases hf
        cases houter
      · cases hf

theorem reads_and_writes_agree_in_siblings :
    siblings.arena.Loopless ∧
      ∃ links target old arena, siblings.arena.Nearest ⟨2⟩ "a" links target ∧
        get ⟨2⟩ "a" 1 siblings = .done old siblings ∧
        getAt ⟨2⟩ links "a" siblings = .done old siblings ∧
        assign ⟨2⟩ "a" (.bool true) 1 siblings = .done () { siblings with arena := arena } ∧
        siblings.arena.Sets target "a" (.bool true) arena := by
  refine ⟨loopless_siblings, ?_⟩
  rcases (reads_and_writes_agree loopless_siblings ⟨2⟩ "a" (.bool true)).1 1 with
    ⟨_, habsent, -⟩ | hset
  · cases habsent 1 Arena.globals rfl
  · exact hset

end Action

end Lox
