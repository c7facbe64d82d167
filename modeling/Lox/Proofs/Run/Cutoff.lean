import Lox.Proofs.Appending.Run
import Lox.Proofs.Run.Habits

/-!
Runs whose sink has room for a number of bytes only. What an action writes and how it ends do not
depend on the sink as long as the sink takes everything in; the first text that does not fit ends
the action, whatever it is nested in (`Action.Prints`). That is a habit of all actions, so a run
with a limited sink is the run with an unlimited one, cut off where the room ends
(`Program.output_failure_cuts_run`).
-/

set_option autoImplicit false

namespace Lox

/-! ### Texts written to a sink -/

/-- The texts one behind the other, as bytes. -/
def encodedAll : List String → ByteArray
  | [] => .empty
  | text :: texts => text.toUTF8 ++ encodedAll texts

namespace Sink

variable {s s' : Sink} {texts texts' : List String} {b : ByteArray} {capacity : Nat}

/-- Writes texts in order, up to the first that does not fit. -/
def pour (s : Sink) : List String → Bool × Sink
  | [] => (true, s)
  | text :: texts =>
    if (s.write text).1 then (s.write text).2.pour texts else (false, (s.write text).2)

theorem pour_one (s : Sink) (text : String) : s.pour [text] = s.write text := by
  rw [pour]
  cases hfits : s.write text with
  | mk fits s₁ => cases fits <;> rfl

theorem pour_append (s : Sink) (texts texts' : List String) :
    s.pour (texts ++ texts') = match s.pour texts with
      | (true, s₁) => s₁.pour texts'
      | (false, s₁) => (false, s₁) := by
  induction texts generalizing s with
  | nil => rfl
  | cons text texts ih =>
    rw [List.cons_append, pour, pour]
    split
    · exact ih _
    · rfl

theorem pour_append_all (h : s.pour (texts ++ texts') = (true, s')) :
    ∃ s₁, s.pour texts = (true, s₁) ∧ s₁.pour texts' = (true, s') := by
  rw [pour_append] at h
  split at h
  next s₁ hfirst => exact ⟨s₁, hfirst, h⟩
  next => cases h

theorem pour_append_cut (h : s.pour (texts ++ texts') = (false, s')) :
    s.pour texts = (false, s') ∨
      ∃ s₁, s.pour texts = (true, s₁) ∧ s₁.pour texts' = (false, s') := by
  rw [pour_append] at h
  split at h
  next s₁ hfirst => exact Or.inr ⟨s₁, hfirst, h⟩
  next s₁ hfirst =>
    cases h
    exact Or.inl hfirst

theorem pour_unlimited (b : ByteArray) (texts : List String) :
    (⟨b, none⟩ : Sink).pour texts = (true, ⟨b ++ encodedAll texts, none⟩) := by
  induction texts generalizing b with
  | nil => rw [pour, encodedAll, ByteArray.append_empty]
  | cons text texts ih =>
    rw [pour, encodedAll, ← ByteArray.append_assoc]
    exact ih (b ++ text.toUTF8)

/-- Texts are cut off at the last byte that there is room for. -/
theorem pour_limited (hroom : b.size ≤ capacity) (texts : List String) :
    (⟨b, some capacity⟩ : Sink).pour texts =
      if (b ++ encodedAll texts).size ≤ capacity then (true, ⟨b ++ encodedAll texts, some capacity⟩)
      else (false, ⟨(b ++ encodedAll texts).extract 0 capacity, some capacity⟩) := by
  induction texts generalizing b with
  | nil => rw [pour, encodedAll, ByteArray.append_empty, if_pos hroom]
  | cons text texts ih =>
    rw [pour, encodedAll, ← ByteArray.append_assoc]
    simp only [write]
    by_cases hfits : (b ++ text.toUTF8).size ≤ capacity
    · simp only [hfits, if_true]
      exact ih hfits
    · have hover : ¬(b ++ text.toUTF8 ++ encodedAll texts).size ≤ capacity := by
        rw [ByteArray.size_append]
        omega
      have hcut : (b ++ text.toUTF8 ++ encodedAll texts).extract 0 capacity =
          (b ++ text.toUTF8).extract 0 capacity := by
        have hnone :
            (encodedAll texts).extract 0 (capacity - (b ++ text.toUTF8).size) = .empty := by
          rw [Nat.sub_eq_zero_of_le (Nat.not_le.1 hfits).le]
          exact ByteArray.extract_same
        rw [ByteArray.extract_append, Nat.zero_sub, hnone, ByteArray.append_empty]
      simp only [hfits, if_false, hover, hcut, Bool.false_eq_true]

end Sink

/-! ### Actions on machines that differ in their sinks -/

def Machine.withSink (m : Machine) (s : Sink) : Machine := { m with sink := s }

@[simp] theorem Machine.arena_withSink (m : Machine) (s : Sink) : (m.withSink s).arena = m.arena :=
  rfl

def Outcome.withSink {α : Type} (o : Outcome α) (s : Sink) : Outcome α :=
  match o with
  | .outOfFuel => .outOfFuel
  | .failed cause m => .failed cause (m.withSink s)
  | .done a m => .done a (m.withSink s)

namespace Action

variable {α β : Type} {x : Action α} {f : α → Action β} {m m' : Machine}
  {texts texts' : List String}

/-- On the machine with any sink at all the action writes the texts and ends with the outcome; but
if the sink runs full, the action fails there. -/
structure Prints (x : Action α) (m : Machine) (texts : List String) (o : Outcome α) : Prop where
  all : ∀ s s', s.pour texts = (true, s') → x (m.withSink s) = o.withSink s'
  cut : ∀ s s', s.pour texts = (false, s') →
    ∃ m' : Machine, x (m.withSink s) = .failed .sinkFull (m'.withSink s')

/-- An action to which the sink makes no difference writes nothing. -/
theorem prints_nothing (h : ∀ s, x (m.withSink s) = (x m).withSink s) :
    ∃ texts o, x.Prints m texts o := by
  refine ⟨[], x m, fun s s' hs ↦ ?_, fun s s' hs ↦ ?_⟩
  · cases hs
    exact h s
  · cases hs

theorem write_apply (text : String) (m : Machine) (s : Sink) :
    write text (m.withSink s) =
      if (s.write text).1 then .done () (m.withSink (s.write text).2)
      else .failed .sinkFull (m.withSink (s.write text).2) :=
  rfl

theorem prints_write (text : String) (m : Machine) : ∃ texts o, (write text).Prints m texts o := by
  refine ⟨[text], .done () m, fun s s' hs ↦ ?_, fun s s' hs ↦ ⟨m, ?_⟩⟩
  · rw [Sink.pour_one] at hs
    rw [write_apply, hs]
    rfl
  · rw [Sink.pour_one] at hs
    rw [write_apply, hs]
    rfl

/-- What stops an action stops those that would have followed. -/
theorem Prints.stops {o : Outcome α} {o' : Outcome β} (h : x.Prints m texts o)
    (hstop : ∀ s s', x (m.withSink s) = o.withSink s' →
      (x >>= f) (m.withSink s) = o'.withSink s') : (x >>= f).Prints m texts o' := by
  refine ⟨fun s s' hs ↦ hstop s s' (h.all s s' hs), fun s s' hs ↦ ?_⟩
  obtain ⟨m', hm'⟩ := h.cut s s' hs
  exact ⟨m', by rw [bind_apply, hm']⟩

theorem Prints.goesOn {a : α} {o : Outcome β} (h : x.Prints m texts (.done a m'))
    (hf : (f a).Prints m' texts' o) : (x >>= f).Prints m (texts ++ texts') o := by
  have hfirst (s s₁ : Sink) (hs : s.pour texts = (true, s₁)) :
      (x >>= f) (m.withSink s) = f a (m'.withSink s₁) := by
    rw [bind_apply, h.all s s₁ hs]
    rfl
  refine ⟨fun s s' hs ↦ ?_, fun s s' hs ↦ ?_⟩
  · obtain ⟨s₁, hs₁, hs'⟩ := Sink.pour_append_all hs
    exact (hfirst s s₁ hs₁).trans (hf.all s₁ s' hs')
  · rcases Sink.pour_append_cut hs with hcut | ⟨s₁, hs₁, hs'⟩
    · obtain ⟨m₁, hm₁⟩ := h.cut s s' hcut
      exact ⟨m₁, by rw [bind_apply, hm₁]⟩
    · rw [hfirst s s₁ hs₁]
      exact hf.cut s₁ s' hs'

theorem prints_bind (h : ∀ m, ∃ texts o, x.Prints m texts o)
    (hf : ∀ a m, ∃ texts o, (f a).Prints m texts o) (m : Machine) :
    ∃ texts o, (x >>= f).Prints m texts o := by
  obtain ⟨texts, o, hx⟩ := h m
  cases o with
  | outOfFuel => exact ⟨texts, .outOfFuel, hx.stops fun s s' hs ↦ by rw [bind_apply, hs]; rfl⟩
  | failed cause m' =>
    exact ⟨texts, .failed cause m', hx.stops fun s s' hs ↦ by rw [bind_apply, hs]; rfl⟩
  | done a m' =>
    obtain ⟨texts', o', hrest⟩ := hf a m'
    exact ⟨texts ++ texts', o', hx.goesOn hrest⟩

theorem prints_releasing (frame : FrameId) (h : ∀ m, ∃ texts o, x.Prints m texts o) (m : Machine) :
    ∃ texts o, (releasing frame x).Prints m texts o := by
  obtain ⟨texts, o, hx⟩ := h m
  refine ⟨texts, releasing frame (fun _ ↦ o) m, fun s s' hs ↦ ?_, fun s s' hs ↦ ?_⟩
  · unfold releasing
    rw [hx.all s s' hs]
    cases o <;> rfl
  · obtain ⟨m', hm'⟩ := hx.cut s s' hs
    refine ⟨{ m' with arena := m'.arena.release frame }, ?_⟩
    unfold releasing
    rw [hm']
    rfl

/-! ### What the sink makes no difference to -/

variable {s : Sink}

theorem define_withSink (frame : FrameId) (name : String) (v : Value) :
    define frame name v (m.withSink s) = (define frame name v m).withSink s := by
  simp only [define, Machine.arena_withSink]
  cases m.arena.frame frame <;> rfl

theorem getAt_withSink (frame : FrameId) (distance : Nat) (name : String) :
    getAt frame distance name (m.withSink s) = (getAt frame distance name m).withSink s := by
  simp only [getAt, Machine.arena_withSink]
  cases m.arena.getAt frame distance name <;> rfl

theorem assignAt_withSink (frame : FrameId) (distance : Nat) (name : String) (v : Value) :
    assignAt frame distance name v (m.withSink s) =
      (assignAt frame distance name v m).withSink s := by
  simp only [assignAt, Machine.arena_withSink]
  cases m.arena.holderAt frame distance name with
  | error fault => rfl
  | ok target => exact define_withSink target name v

theorem get_withSink (frame : FrameId) (name : String) (line : Nat) :
    get frame name line (m.withSink s) = (get frame name line m).withSink s := by
  simp only [get, Machine.arena_withSink]
  cases m.arena.get frame name with
  | error fault => rfl
  | ok found => cases found <;> rfl

theorem assign_withSink (frame : FrameId) (name : String) (v : Value) (line : Nat) :
    assign frame name v line (m.withSink s) = (assign frame name v line m).withSink s := by
  simp only [assign, Machine.arena_withSink]
  cases m.arena.holder frame name with
  | error fault => rfl
  | ok found =>
    cases found with
    | none => rfl
    | some target => exact define_withSink target name v

end Action

/-- Actions write what they write to any sink that takes it in, and fail where one runs full. -/
def Habit.printing : Habit where
  Holds x := ∀ m, ∃ texts o, Action.Prints x m texts o
  outOfFuel _ := Action.prints_nothing fun _ ↦ rfl
  fail _ _ := Action.prints_nothing fun _ ↦ rfl
  pure _ _ := Action.prints_nothing fun _ ↦ rfl
  bind := Action.prints_bind
  releasing frame _ h := Action.prints_releasing frame h
  push _ _ _ := Action.prints_nothing fun _ ↦ rfl
  capture _ _ := Action.prints_nothing fun _ ↦ rfl
  define frame name v _ := Action.prints_nothing fun _ ↦ Action.define_withSink frame name v
  getAt frame d name _ := Action.prints_nothing fun _ ↦ Action.getAt_withSink frame d name
  assignAt frame d name v _ :=
    Action.prints_nothing fun _ ↦ Action.assignAt_withSink frame d name v
  get frame name line _ := Action.prints_nothing fun _ ↦ Action.get_withSink frame name line
  assign frame name v line _ :=
    Action.prints_nothing fun _ ↦ Action.assign_withSink frame name v line
  distance? _ _ := Action.prints_nothing fun _ ↦ rfl
  fresh _ := Action.prints_nothing fun _ ↦ rfl
  newObject _ _ := Action.prints_nothing fun _ ↦ rfl
  field? _ _ _ := Action.prints_nothing fun _ ↦ rfl
  setField _ _ _ _ := Action.prints_nothing fun _ ↦ rfl
  now _ := Action.prints_nothing fun _ ↦ rfl
  write := Action.prints_write

/-! ### Runs -/

namespace Run

/-- The run as it would be with room for so many bytes. -/
def cutOff (capacity : Nat) : Run → Run
  | .failed cause printed =>
    if printed.size ≤ capacity then .failed cause printed
    else .failed .sinkFull (printed.extract 0 capacity)
  | .finished printed =>
    if printed.size ≤ capacity then .finished printed
    else .failed .sinkFull (printed.extract 0 capacity)
  | other => other

/-- A run that ends with an unlimited sink ends with a limited one as well: alike, if what it
prints finds room; and otherwise with a failure of the sink, once the room is filled with the first
of those bytes. -/
theorem output_failure_cuts_run (fuel capacity : Nat) (clock : Clock) (source : String)
    (h : ofSource fuel .unlimited clock source ≠ .outOfFuel) :
    ofSource fuel (.limited capacity) clock source =
      (ofSource fuel .unlimited clock source).cutOff capacity := by
  unfold ofSource at h ⊢
  cases hp : Program.ofSource source with
  | error diagnostics => rfl
  | ok p =>
    rw [hp] at h
    dsimp only at h ⊢
    obtain ⟨texts, o, hprints⟩ := Habit.runStatements (Habit.evaluators .printing fuel) p.statements
      ((Machine.initial .unlimited clock).install p.distances)
    have hunlimited : p.run fuel (.initial .unlimited clock) =
        o.withSink ⟨encodedAll texts, none⟩ :=
      hprints.all .unlimited _ (by
        rw [Sink.unlimited, Sink.pour_unlimited, ByteArray.empty_append])
    have hpour := Sink.pour_limited (b := .empty) (Nat.zero_le capacity) texts
    rw [ByteArray.empty_append] at hpour
    rw [hunlimited] at h ⊢
    split at hpour
    next hfits =>
      have hlimited : p.run fuel (.initial (.limited capacity) clock) = o.withSink _ :=
        hprints.all (.limited capacity) _ hpour
      rw [hlimited]
      cases o with
      | outOfFuel => rfl
      | failed cause m => exact (if_pos hfits).symm
      | done a m => exact (if_pos hfits).symm
    next hover =>
      obtain ⟨m', hlimited⟩ := hprints.cut (.limited capacity) _ hpour
      change p.run fuel (.initial (.limited capacity) clock) = _ at hlimited
      rw [hlimited]
      cases o with
      | outOfFuel => exact absurd rfl h
      | failed cause m => exact (if_neg hover).symm
      | done a m => exact (if_neg hover).symm

/-- The run came to an end within its fuel. -/
def ended : Run → Bool
  | .outOfFuel => false
  | _ => true

/-- The room ends while an initializer that a loop in a block calls is printing. -/
def printsNested : String :=
  "class A { init() { print true; } } var n = nil; print n;
  { var go = true; while (go) { print A().init() == n; go = false; } } print n;"

theorem output_failure_cuts_run_nested :
    ofSource 20 .unlimited .stopped printsNested ≠ .outOfFuel ∧
      ofSource 20 (.limited 7) .stopped printsNested =
        (ofSource 20 .unlimited .stopped printsNested).cutOff 7 := by
  have hended : (ofSource 20 .unlimited .stopped printsNested).ended = true := by decide +kernel
  have hne : ofSource 20 .unlimited .stopped printsNested ≠ .outOfFuel := fun h ↦ by
    rw [h] at hended
    cases hended
  exact ⟨hne, output_failure_cuts_run 20 7 .stopped printsNested hne⟩

end Run

end Lox
