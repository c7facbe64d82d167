import Lox.Proofs.Calls.Direct
import Lox.Proofs.Reclamation.Access

/-!
Two machines that retain their frames, of which the second one has more. It binds some methods
earlier than the first one does, and such a frame waits, unchanged and not referred to, for the
first machine to make its counterpart. All other frames that matter are counterparts already: they
have the same names, and values that belong together.
-/

set_option autoImplicit false

namespace Lox

/-! ### Arenas that only grow -/

namespace Arena

variable {α : Type} {a : Arena α} {k : FrameId} {f : Frame α}

/-- Nothing has been released, nor will be, and frames stand behind those they lie in. -/
structure Lasting (a : Arena α) : Prop where
  retains : a.retains = true
  full : a.free = []
  nested : ∀ k f outer, a.frame? k = some f → f.enclosing = some outer → outer.slot < k.slot

namespace Lasting

theorem release (h : a.Lasting) (k : FrameId) : a.release k = a :=
  release_of_retains h.retains k

theorem slot_lt_nextFrame (h : a.Lasting) (hk : a.frame? k = some f) :
    k.slot < a.nextFrame.slot :=
  slot_lt_nextFrame_of_full h.full ⟨f, hk⟩

theorem ne_nextFrame (h : a.Lasting) (hk : a.frame? k = some f) : k ≠ a.nextFrame := fun heq ↦
  absurd (h.slot_lt_nextFrame hk) (heq ▸ Nat.lt_irrefl _)

theorem frame?_push (h : a.Lasting) (enclosing k : FrameId) :
    (a.push enclosing).frame? k =
      if k = a.nextFrame then some ⟨.empty, some enclosing, false⟩ else a.frame? k :=
  frame?_push_of_full h.full enclosing k

theorem frame?_push_nextFrame (h : a.Lasting) (enclosing : FrameId) :
    (a.push enclosing).frame? a.nextFrame = some ⟨.empty, some enclosing, false⟩ := by
  rw [h.frame?_push, if_pos rfl]

/-- What stands in an arena stands there when another frame has been opened. -/
theorem frame?_push_of_some (h : a.Lasting) (enclosing : FrameId) (hk : a.frame? k = some f) :
    (a.push enclosing).frame? k = some f := by
  rw [h.frame?_push, if_neg (h.ne_nextFrame hk), hk]

theorem push (h : a.Lasting) {enclosing : FrameId} (henclosing : a.Live enclosing) :
    (a.push enclosing).Lasting := by
  refine ⟨(retains_push a enclosing).trans h.retains, free_push_of_full h.full enclosing,
    fun k f outer hk houter ↦ ?_⟩
  rw [h.frame?_push] at hk
  split at hk
  next heq =>
    cases hk
    cases houter
    exact heq ▸ slot_lt_nextFrame_of_full h.full henclosing
  next => exact h.nested k f outer hk houter

theorem bind (h : a.Lasting) (hk : a.frame? k = some f) (name : String) (v : α) :
    (a.bind k f name v).Lasting := by
  refine ⟨h.retains, h.full, fun l g outer hl houter ↦ ?_⟩
  rw [frame?_bind name v hk] at hl
  split at hl
  next heq =>
    cases hl
    exact heq ▸ h.nested k f outer hk houter
  next => exact h.nested l g outer hl houter

theorem capture (h : a.Lasting) (k : FrameId) : (a.capture k).Lasting := by
  obtain ⟨marked, hmarked⟩ := frame?_capture a k
  obtain ⟨hfree, -, hretains⟩ := free_captureFrom a.slots.size a k
  refine ⟨hretains.trans h.retains, hfree.trans h.full, fun l g outer hl houter ↦ ?_⟩
  rw [hmarked] at hl
  obtain ⟨g', hg', rfl⟩ := Option.map_eq_some_iff.1 hl
  exact h.nested l g' outer hg' houter

end Lasting

end Arena

/-! ### Counterparts -/

/-- Which frames and identities are counterparts, and which frames of the second machine wait, in
which frame and for which receiver. -/
structure Counterparts where
  frames : FrameId → FrameId → Prop
  ids : Nat → Nat → Prop
  waiting : FrameId → FrameId → Object → Prop

namespace Counterparts

variable {w w₁ w₂ : Counterparts}

def pairing (w : Counterparts) : Pairing := ⟨.direct, w.frames, w.ids⟩

/-- What are counterparts stay so, and what waits goes on waiting. -/
structure Grows (w w₁ : Counterparts) : Prop where
  frames : ∀ {k k'}, w.frames k k' → w₁.frames k k'
  ids : ∀ {id id'}, w.ids id id' → w₁.ids id id'
  waiting : ∀ {k' outer o}, w.waiting k' outer o → w₁.waiting k' outer o

theorem Grows.refl (w : Counterparts) : w.Grows w := ⟨id, id, id⟩

theorem Grows.trans (h : w.Grows w₁) (h' : w₁.Grows w₂) : w.Grows w₂ :=
  ⟨fun hk ↦ h'.frames (h.frames hk), fun hid ↦ h'.ids (h.ids hid),
    fun hk ↦ h'.waiting (h.waiting hk)⟩

theorem Grows.extends_ (h : w.Grows w₁) : w.pairing.Extends w₁.pairing := ⟨h.frames, h.ids, id⟩

def withFrame (w : Counterparts) (k k' : FrameId) : Counterparts :=
  { w with frames := fun l l' ↦ w.frames l l' ∨ l = k ∧ l' = k' }

def withId (w : Counterparts) (id id' : Nat) : Counterparts :=
  { w with ids := fun a a' ↦ w.ids a a' ∨ a = id ∧ a' = id' }

def withWaiting (w : Counterparts) (k' outer : FrameId) (o : Object) : Counterparts :=
  { w with waiting := fun l' outer' p ↦ w.waiting l' outer' p ∨ l' = k' ∧ outer' = outer ∧ p = o }

/-- A frame that has been waiting gets its counterpart. -/
def matched (w : Counterparts) (k k' : FrameId) : Counterparts :=
  { w.withFrame k k' with waiting := fun l' outer o ↦ w.waiting l' outer o ∧ l' ≠ k' }

theorem grows_withFrame (w : Counterparts) (k k' : FrameId) : w.Grows (w.withFrame k k') :=
  ⟨Or.inl, id, id⟩

theorem grows_withId (w : Counterparts) (id id' : Nat) : w.Grows (w.withId id id') :=
  ⟨fun h ↦ h, Or.inl, fun h ↦ h⟩

theorem grows_withWaiting (w : Counterparts) (k' outer : FrameId) (o : Object) :
    w.Grows (w.withWaiting k' outer o) :=
  ⟨id, id, Or.inl⟩

/-- A frame that has begun to wait since is no loss. -/
theorem Grows.matched (h : w.Grows w₁) {k' : FrameId} (hnew : ∀ outer o, ¬w.waiting k' outer o)
    (k : FrameId) : w.Grows (w₁.matched k k') := by
  refine ⟨fun hk ↦ Or.inl (h.frames hk), h.ids, fun {l' outer o} hl ↦ ⟨h.waiting hl, ?_⟩⟩
  rintro rfl
  exact hnew outer o hl

theorem pairing_extends_matched (w : Counterparts) (k k' : FrameId) :
    w.pairing.Extends (w.matched k k').pairing :=
  ⟨Or.inl, id, id⟩

end Counterparts

/-- Frames with the same names and values that belong together. -/
structure Frame.Pairs (w : Counterparts) (f f' : Frame Value) : Prop where
  values : f.values.Pairs (Value.Pairs w.pairing) f'.values
  enclosing : Option.Rel w.frames f.enclosing f'.enclosing

theorem Frame.Pairs.extend {w w₁ : Counterparts} {f f' : Frame Value} (h : f.Pairs w f')
    (hw : w.pairing.Extends w₁.pairing) : f.Pairs w₁ f' := by
  refine ⟨h.values.imp fun _ _ hv ↦ hv.extend hw, ?_⟩
  have henclosing := h.enclosing
  generalize f.enclosing = outer at henclosing ⊢
  generalize f'.enclosing = outer' at henclosing ⊢
  cases henclosing with
  | none => exact .none
  | some hk => exact .some (hw.frames hk)

namespace Arena

/-- Arenas with counterparts. -/
structure Abreast (w : Counterparts) (a a' : Arena Value) : Prop where
  left : a.Lasting
  right : a'.Lasting
  frames : ∀ {k k'}, w.frames k k' →
    ∃ f f', a.frame? k = some f ∧ a'.frame? k' = some f' ∧ f.Pairs w f'
  one : ∀ {k k' l l'}, w.frames k k' → w.frames l l' → (k = l ↔ k' = l')
  globals : w.frames globals globals
  waiting : ∀ {k' outer o}, w.waiting k' outer o → (∀ k, ¬w.frames k k') ∧
    ∃ f', a'.frame? k' = some f' ∧ f'.values = Bindings.empty.insert "this" (.object o) ∧
      f'.enclosing = some outer

namespace Abreast

variable {w : Counterparts} {a a' : Arena Value} {k k' : FrameId} {v v' : Value}

theorem live (h : Abreast w a a') (hk : w.frames k k') : a.Live k := by
  obtain ⟨f, -, hf, -⟩ := h.frames hk
  exact ⟨f, hf⟩

theorem live' (h : Abreast w a a') (hk : w.frames k k') : a'.Live k' := by
  obtain ⟨-, f', -, hf', -⟩ := h.frames hk
  exact ⟨f', hf'⟩

/-- Another pair of counterparts, which have not had any. -/
theorem one_withFrame (h : Abreast w a a') (hk : ∀ l', ¬w.frames k l')
    (hk' : ∀ l, ¬w.frames l k') {l l' n n' : FrameId} (hl : (w.withFrame k k').frames l l')
    (hn : (w.withFrame k k').frames n n') : l = n ↔ l' = n' := by
  rcases hl with hl | ⟨rfl, rfl⟩ <;> rcases hn with hn | ⟨rfl, rfl⟩
  · exact h.one hl hn
  · exact ⟨fun heq ↦ absurd (heq ▸ hl) (hk _), fun heq ↦ absurd (heq ▸ hl) (hk' _)⟩
  · exact ⟨fun heq ↦ absurd (heq ▸ hn) (hk _), fun heq ↦ absurd (heq ▸ hn) (hk' _)⟩
  · exact ⟨fun _ ↦ rfl, fun _ ↦ rfl⟩

theorem push (h : Abreast w a a') (hk : w.frames k k') :
    Abreast (w.withFrame a.nextFrame a'.nextFrame) (a.push k) (a'.push k') := by
  have hgrows := w.grows_withFrame a.nextFrame a'.nextFrame
  refine ⟨h.left.push (h.live hk), h.right.push (h.live' hk), fun {l l'} hl ↦ ?_,
    h.one_withFrame (fun l' hl ↦ ?_) fun l hl ↦ ?_, Or.inl h.globals, fun {l' outer o} hl ↦ ?_⟩
  · rcases hl with hl | ⟨rfl, rfl⟩
    · obtain ⟨f, f', hf, hf', hpair⟩ := h.frames hl
      exact ⟨f, f', h.left.frame?_push_of_some k hf, h.right.frame?_push_of_some k' hf',
        hpair.extend hgrows.extends_⟩
    · exact ⟨_, _, h.left.frame?_push_nextFrame k, h.right.frame?_push_nextFrame k',
        .nil, .some (Or.inl hk)⟩
  · obtain ⟨f, hf⟩ := h.live hl
    exact h.left.ne_nextFrame hf rfl
  · obtain ⟨f', hf'⟩ := h.live' hl
    exact h.right.ne_nextFrame hf' rfl
  · obtain ⟨halone, f', hf', hrest⟩ := h.waiting hl
    refine ⟨fun n hn ↦ ?_, f', h.right.frame?_push_of_some k' hf', hrest⟩
    rcases hn with hn | ⟨-, rfl⟩
    · exact halone n hn
    · exact h.right.ne_nextFrame hf' rfl

theorem bind (h : Abreast w a a') (hk : w.frames k k') {f f' : Frame Value}
    (hf : a.frame? k = some f) (hf' : a'.frame? k' = some f') (hpair : f.Pairs w f')
    (name : String) (hv : v.Pairs w.pairing v') :
    Abreast w (a.bind k f name v) (a'.bind k' f' name v') := by
  refine ⟨h.left.bind hf name v, h.right.bind hf' name v', fun {l l'} hl ↦ ?_, h.one, h.globals,
    fun {l' outer o} hl ↦ ?_⟩
  · by_cases heq : l = k
    · have heq' := (h.one hl hk).1 heq
      exact ⟨_, _, (frame?_bind name v hf l).trans (if_pos heq),
        (frame?_bind name v' hf' l').trans (if_pos heq'), hpair.values.insert name hv,
        hpair.enclosing⟩
    · obtain ⟨g, g', hg, hg', hpair'⟩ := h.frames hl
      have heq' : ¬l' = k' := fun heq' ↦ heq ((h.one hl hk).2 heq')
      exact ⟨g, g', (frame?_bind name v hf l).trans ((if_neg heq).trans hg),
        (frame?_bind name v' hf' l').trans ((if_neg heq').trans hg'), hpair'⟩
  · obtain ⟨halone, g', hg', hrest⟩ := h.waiting hl
    have heq' : ¬l' = k' := by
      rintro rfl
      exact halone k hk
    exact ⟨halone, g', (frame?_bind name v' hf' l').trans ((if_neg heq').trans hg'), hrest⟩

/-- To capture frames changes nothing of what is in them. -/
theorem capture (h : Abreast w a a') (k k' : FrameId) :
    Abreast w (a.capture k) (a'.capture k') := by
  obtain ⟨marked, hmarked⟩ := frame?_capture a k
  obtain ⟨marked', hmarked'⟩ := frame?_capture a' k'
  refine ⟨h.left.capture k, h.right.capture k', fun {l l'} hl ↦ ?_, h.one, h.globals,
    fun {l' outer o} hl ↦ ?_⟩
  · obtain ⟨f, f', hf, hf', hpair⟩ := h.frames hl
    refine ⟨_, _, (hmarked l).trans (congrArg (Option.map _) hf),
      (hmarked' l').trans (congrArg (Option.map _) hf'), hpair.values, hpair.enclosing⟩
  · obtain ⟨halone, f', hf', hrest⟩ := h.waiting hl
    exact ⟨halone, _, (hmarked' l').trans (congrArg (Option.map _) hf'), hrest⟩

/-! ### Looking for names -/

theorem ancestorFrom (h : Abreast w a a') (start start' : FrameId) (total distance : Nat)
    (hk : w.frames k k') :
    AlikeAnswers w.frames (a.ancestorFrom start total distance k)
      (a'.ancestorFrom start' total distance k') := by
  induction distance generalizing k k' with
  | zero => exact .answer hk
  | succ distance ih =>
    obtain ⟨f, f', hf, hf', hpair⟩ := h.frames hk
    have henclosing := hpair.enclosing
    simp only [Arena.ancestorFrom, frame_of_frame? hf, frame_of_frame? hf']
    generalize f.enclosing = outer at henclosing
    generalize f'.enclosing = outer' at henclosing
    cases henclosing with
    | none => exact .fault rfl
    | some houter => exact ih houter

theorem getAt (h : Abreast w a a') (distance : Nat) (name : String) (hk : w.frames k k') :
    AlikeAnswers (Value.Pairs w.pairing) (a.getAt k distance name) (a'.getAt k' distance name) := by
  have hwalk := h.ancestorFrom k k' distance distance hk
  unfold Arena.getAt Arena.ancestor
  generalize a.ancestorFrom k distance distance k = target? at hwalk
  generalize a'.ancestorFrom k' distance distance k' = target?' at hwalk
  cases hwalk with
  | fault hfault => exact .fault hfault
  | answer htarget =>
    obtain ⟨f, f', hf, hf', hpair⟩ := h.frames htarget
    have hfind := hpair.values.find? name
    simp only [frame_of_frame? hf, frame_of_frame? hf']
    generalize f.values.find? name = v? at hfind
    generalize f'.values.find? name = v?' at hfind
    cases hfind with
    | none => exact .fault rfl
    | some hv => exact .answer hv

theorem holderAt (h : Abreast w a a') (distance : Nat) (name : String) (hk : w.frames k k') :
    AlikeAnswers w.frames (a.holderAt k distance name) (a'.holderAt k' distance name) := by
  have hwalk := h.ancestorFrom k k' distance distance hk
  unfold Arena.holderAt Arena.ancestor
  generalize a.ancestorFrom k distance distance k = target? at hwalk
  generalize a'.ancestorFrom k' distance distance k' = target?' at hwalk
  cases hwalk with
  | fault hfault => exact .fault hfault
  | answer htarget =>
    obtain ⟨f, f', hf, hf', hpair⟩ := h.frames htarget
    simp only [frame_of_frame? hf, frame_of_frame? hf', hpair.values.contains name]
    split
    · exact .answer htarget
    · exact .fault rfl

/-- Each step leads to a frame further to the front, so neither search runs out of steps. -/
theorem holderFrom (h : Abreast w a a') (start start' : FrameId) (name : String) {steps : Nat}
    (hk : w.frames k k') (hsteps : k.slot < steps) {steps' : Nat} (hsteps' : k'.slot < steps') :
    AlikeAnswers (Option.Rel w.frames) (a.holderFrom start name steps k)
      (a'.holderFrom start' name steps' k') := by
  induction steps generalizing k k' steps' with
  | zero => exact absurd hsteps (Nat.not_lt_zero _)
  | succ steps ih =>
    cases steps' with
    | zero => exact absurd hsteps' (Nat.not_lt_zero _)
    | succ steps' =>
      obtain ⟨f, f', hf, hf', hpair⟩ := h.frames hk
      simp only [Arena.holderFrom, frame_of_frame? hf, frame_of_frame? hf',
        hpair.values.contains name]
      split
      · exact .answer (.some hk)
      · have henclosing := hpair.enclosing
        generalize houter : f.enclosing = outer? at henclosing ⊢
        generalize houter' : f'.enclosing = outer?' at henclosing ⊢
        cases henclosing with
        | none => exact .answer .none
        | some hpaired =>
          have hless := h.left.nested k f _ hf houter
          have hless' := h.right.nested k' f' _ hf' houter'
          exact ih hpaired (by omega) (by omega)

theorem holder (h : Abreast w a a') (name : String) (hk : w.frames k k') :
    AlikeAnswers (Option.Rel w.frames) (a.holder k name) (a'.holder k' name) := by
  obtain ⟨f, f', hf, hf', -⟩ := h.frames hk
  exact h.holderFrom k k' name hk (Nat.lt_succ_of_lt (slot_lt_of_frame? hf))
    (Nat.lt_succ_of_lt (slot_lt_of_frame? hf'))

theorem get (h : Abreast w a a') (name : String) (hk : w.frames k k') :
    AlikeAnswers (Option.Rel (Value.Pairs w.pairing)) (a.get k name) (a'.get k' name) := by
  have hholder := h.holder name hk
  unfold Arena.get
  generalize a.holder k name = found? at hholder
  generalize a'.holder k' name = found?' at hholder
  cases hholder with
  | fault hfault => exact .fault hfault
  | answer hfound =>
    cases hfound with
    | none => exact .answer .none
    | @some l l' hl =>
      obtain ⟨f, f', hf, hf', hpair⟩ := h.frames hl
      refine .answer ?_
      change Option.Rel _ (a.valueIn? l name) (a'.valueIn? l' name)
      unfold valueIn?
      rw [hf, hf']
      exact hpair.values.find? name

/-! ### Methods bound early and late -/

/-- A frame that is opened on the second machine only, for a receiver. -/
theorem wait (h : Abreast w a a') {outer : FrameId} (houter : a'.Live outer) (o : Object) :
    Abreast (w.withWaiting a'.nextFrame outer o) a
      (((a'.push outer).bind a'.nextFrame ⟨.empty, some outer, false⟩ "this" (.object o)).capture
        a'.nextFrame) := by
  have hopened := h.right.frame?_push_nextFrame outer
  have hframe := frame?_bind "this" (.object o) hopened
  obtain ⟨marked, hmarked⟩ := frame?_capture
    ((a'.push outer).bind a'.nextFrame ⟨.empty, some outer, false⟩ "this" (.object o)) a'.nextFrame
  have hkept {l : FrameId} {f : Frame Value} (hl : a'.frame? l = some f) :
      ∃ captured, (((a'.push outer).bind a'.nextFrame ⟨.empty, some outer, false⟩ "this"
        (.object o)).capture a'.nextFrame).frame? l = some { f with captured := captured } := by
    rw [hmarked, hframe, if_neg (h.right.ne_nextFrame hl), h.right.frame?_push_of_some outer hl]
    exact ⟨_, rfl⟩
  refine ⟨h.left, ((h.right.push houter).bind hopened _ _).capture _, fun {l l'} hl ↦ ?_, h.one,
    h.globals, fun {l' outer' p} hl ↦ ?_⟩
  · obtain ⟨f, f', hf, hf', hpair⟩ := h.frames hl
    obtain ⟨captured, hcaptured⟩ := hkept hf'
    exact ⟨f, _, hf, hcaptured, hpair.values, hpair.enclosing⟩
  · rcases hl with hl | ⟨rfl, rfl, rfl⟩
    · obtain ⟨halone, f', hf', hrest⟩ := h.waiting hl
      obtain ⟨captured, hcaptured⟩ := hkept hf'
      exact ⟨halone, _, hcaptured, hrest⟩
    · refine ⟨fun l hl ↦ ?_, _, (hmarked _).trans (congrArg _ ((hframe _).trans (if_pos rfl))),
        rfl, rfl⟩
      obtain ⟨f', hf'⟩ := h.live' hl
      exact h.right.ne_nextFrame hf' rfl

/-- The first machine opens the frame that the second one has had waiting. -/
theorem match_ (h : Abreast w a a') {outer outer' : FrameId} {o o' : Object}
    (hwaiting : w.waiting k' outer' o') (houter : w.frames outer outer')
    (ho : o.Pairs w.pairing o') :
    Abreast (w.matched a.nextFrame k')
      ((a.push outer).bind a.nextFrame ⟨.empty, some outer, false⟩ "this" (.object o)) a' := by
  obtain ⟨halone, f', hf', hvalues, henclosing⟩ := h.waiting hwaiting
  have hopened := h.left.frame?_push_nextFrame outer
  have hframe := frame?_bind "this" (.object o) hopened
  have hext := w.pairing_extends_matched a.nextFrame k'
  refine ⟨(h.left.push (h.live houter)).bind hopened _ _, h.right, fun {l l'} hl ↦ ?_,
    h.one_withFrame (fun l' hl ↦ ?_) halone, Or.inl h.globals, fun {l' outer₁ p} hl ↦ ?_⟩
  · rcases hl with hl | ⟨rfl, rfl⟩
    · obtain ⟨f, g', hf, hg', hpair⟩ := h.frames hl
      refine ⟨f, g', ?_, hg', hpair.extend hext⟩
      rw [hframe, if_neg (h.left.ne_nextFrame hf), h.left.frame?_push_of_some outer hf]
    · refine ⟨_, f', (hframe _).trans (if_pos rfl), hf', ?_, ?_⟩
      · rw [hvalues]
        exact Bindings.Pairs.insert .nil "this" (.object (ho.extend hext))
      · rw [henclosing]
        exact .some (Or.inl houter)
  · obtain ⟨f, hf⟩ := h.live hl
    exact h.left.ne_nextFrame hf rfl
  · obtain ⟨hwaits, hne⟩ := hl
    obtain ⟨halone', hrest⟩ := h.waiting hwaits
    refine ⟨fun n hn ↦ ?_, hrest⟩
    rcases hn with hn | ⟨-, rfl⟩
    · exact halone' n hn
    · exact hne rfl

end Abreast

end Arena

end Lox
