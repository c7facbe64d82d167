import Lox.Proofs.Run.Comparison
import Lox.Proofs.Scope.Setting

/-!
Runs in step: on machines with the same frames, which differ in their sinks and in the distances of
nodes that neither of them comes to. They make the same frames and the same values, so that it
remains to say what their sinks have to do with each other, and that a write keeps it so.
-/

set_option autoImplicit false

namespace Lox

/-! ### Everything with itself -/

def Matching.same : Matching where
  exprs := Eq
  stmts := Eq
  routines := Eq
  name h := h ▸ rfl
  parameters h := h ▸ rfl
  body h := h ▸ List.forall₂_refl _

def Pairing.same : Pairing := ⟨.same, Eq, Eq⟩

section

variable {α κ : Type} {R : α → α → Prop}

theorem Bindings.pairs_eq {b b' : Bindings κ α} : b.Pairs Eq b' ↔ b = b' := by
  have hentry : (fun e e' : κ × α ↦ e.1 = e'.1 ∧ e.2 = e'.2) = Eq := by
    funext e e'
    exact propext Prod.ext_iff.symm
  obtain ⟨entries⟩ := b
  obtain ⟨entries'⟩ := b'
  unfold Bindings.Pairs
  rw [hentry, List.forall₂_eq_eq_eq]
  exact ⟨congrArg Bindings.mk, congrArg Bindings.entries⟩

end

theorem Function.pairs_same : Function.Pairs .same = Eq := by
  funext f f'
  refine propext ⟨?_, fun h ↦ h ▸ ⟨rfl, rfl, rfl⟩⟩
  rintro ⟨hroutine, hclosure, hinitializer⟩
  cases f
  cases f'
  cases hroutine
  cases hclosure
  cases hinitializer
  rfl

theorem ClassLayer.pairs_same : ClassLayer.Pairs .same = Eq := by
  funext l l'
  refine propext ⟨?_, fun h ↦ ?_⟩
  · rintro ⟨hid, hname, hmethods⟩
    rw [Function.pairs_same] at hmethods
    cases l
    cases l'
    cases hid
    cases hname
    cases Bindings.pairs_eq.1 hmethods
    rfl
  · subst h
    refine ⟨rfl, rfl, ?_⟩
    rw [Function.pairs_same]
    exact Bindings.pairs_eq.2 rfl

theorem Class.pairs_same : Class.Pairs .same = Eq := by
  funext c c'
  refine propext ⟨?_, fun h ↦ ?_⟩
  · rintro ⟨hown, hancestors⟩
    rw [ClassLayer.pairs_same] at hown hancestors
    rw [List.forall₂_eq_eq_eq] at hancestors
    cases c
    cases c'
    cases hown
    cases hancestors
    rfl
  · subst h
    refine ⟨?_, ?_⟩
    · rw [ClassLayer.pairs_same]
    · rw [ClassLayer.pairs_same, List.forall₂_eq_eq_eq]

theorem Object.pairs_same : Object.Pairs .same = Eq := by
  funext o o'
  refine propext ⟨?_, fun h ↦ ?_⟩
  · rintro ⟨hid, hclass⟩
    rw [Class.pairs_same] at hclass
    cases o
    cases o'
    cases hid
    cases hclass
    rfl
  · subst h
    exact ⟨rfl, by rw [Class.pairs_same]⟩

theorem Value.pairs_same : Value.Pairs .same = Eq := by
  funext v v'
  refine propext ⟨fun h ↦ ?_, fun h ↦ ?_⟩
  · cases h with
    | plain _ => rfl
    | function hid hf =>
      rw [Function.pairs_same] at hf
      cases hid
      cases hf
      rfl
    | class_ hc =>
      rw [Class.pairs_same] at hc
      exact congrArg Value.class_ hc
    | object ho =>
      rw [Object.pairs_same] at ho
      exact congrArg Value.object ho
  · subst h
    cases v with
    | function id f => exact .function rfl (by rw [Function.pairs_same])
    | class_ c => exact .class_ (by rw [Class.pairs_same])
    | object o => exact .object (by rw [Object.pairs_same])
    | _ => exact .plain trivial

/-! ### Runs in step -/

/-- What the sinks of two runs have to do with each other, as they go on. -/
structure Outlets where
  World : Type
  Grows : World → World → Prop
  sinks : World → Sink → Sink → Prop

/-- Writes keep sinks what they are to each other, or one of them has an excuse to fail. -/
structure Outlets.Lawful (W : Outlets) (left right : Option Failure → Prop) : Prop where
  refl : ∀ w, W.Grows w w
  trans : ∀ {w w₁ w₂}, W.Grows w w₁ → W.Grows w₁ w₂ → W.Grows w w₂
  write : ∀ {w s s'} text, W.sinks w s s' →
    (∃ w₁, W.Grows w w₁ ∧ W.sinks w₁ (s.write text).2 (s'.write text).2 ∧
        (s.write text).1 = (s'.write text).1) ∨
      ((s.write text).1 = false ∧ left (some .sinkFull)) ∨
      (s'.write text).1 = false ∧ right (some .sinkFull)

variable {W : Outlets} {reached : NodeId → Prop} {left right : Option Failure → Prop}

/-- Machines with the same frames, fields, identities and clocks, and the same distances of nodes
that are reached. -/
structure Machine.InStep (W : Outlets) (reached : NodeId → Prop) (w : W.World) (m m' : Machine) :
    Prop where
  arena : m.arena = m'.arena
  fields : m.fields = m'.fields
  nextId : m.nextId = m'.nextId
  clock : m.clock = m'.clock
  distances : ∀ id, reached id → m.distances.find? id = m'.distances.find? id
  sinks : W.sinks w m.sink m'.sink

/-- What else there is of machines in step. -/
theorem Machine.InStep.exists_eq {w : W.World} {m m' : Machine} (h : m.InStep W reached w m') :
    ∃ origins distances sink,
      m' = { m with origins := origins, distances := distances, sink := sink } := by
  refine ⟨m'.origins, m'.distances, m'.sink, ?_⟩
  obtain ⟨arena, origins, fields, distances, nextId, sink, clock⟩ := m
  obtain ⟨rfl, rfl, rfl, rfl, -, -⟩ := h
  rfl

namespace Comparison

def inStep (W : Outlets) (reached : NodeId → Prop) (left right : Option Failure → Prop) :
    Comparison where
  toMatching := .same
  World := W.World
  Grows := W.Grows
  frames _ := Eq
  ids _ := Eq
  machines := Machine.InStep W reached
  failures := Eq
  lines := Eq
  nodes id id' := id = id' ∧ reached id
  left := left
  right := right

section

variable {w : (inStep W reached left right).World} {v v' : Value}

theorem eq_of_values (h : (inStep W reached left right).values w v v') : v = v' :=
  (congrFun (congrFun Value.pairs_same v) v').mp h

theorem values_refl (v : Value) : (inStep W reached left right).values w v v :=
  (congrFun (congrFun Value.pairs_same v) v).mpr rfl

theorem eq_of_objects {o o' : Object} (h : (inStep W reached left right).objects w o o') : o = o' :=
  (congrFun (congrFun Object.pairs_same o) o').mp h

theorem objects_refl (o : Object) : (inStep W reached left right).objects w o o :=
  (congrFun (congrFun Object.pairs_same o) o).mpr rfl

theorem eq_of_classes {c c' : Class} (h : (inStep W reached left right).classes w c c') : c = c' :=
  (congrFun (congrFun Class.pairs_same c) c').mp h

end

section

variable (hW : W.Lawful left right) {w : W.World} {m m' : Machine} {k : FrameId} {v : Value}

include hW

theorem inStep_push (origin origin' : Origin) (h : m.InStep W reached w m') :
    (inStep W reached left right).Alike w (fun _ ↦ Eq) (Action.push origin k m)
      (Action.push origin' k m') := by
  obtain ⟨origins, distances, sink, rfl⟩ := h.exists_eq
  exact .done (hW.refl w) { h with arena := rfl } rfl

omit hW in
theorem inStep_releasing {α β : Type} {answers : W.World → α → β → Prop} {x : Action α}
    {x' : Action β} (hx : (inStep W reached left right).Alike w answers (x m) (x' m')) :
    (inStep W reached left right).Alike w answers (Action.releasing k x m)
      (Action.releasing k x' m') := by
  unfold Action.releasing
  generalize x m = o at hx
  generalize x' m' = o' at hx
  cases hx with
  | outOfFuel => exact .outOfFuel
  | failed hgrows hm hcause =>
    exact .failed hgrows { hm with arena := congrArg (Arena.release · k) hm.arena } hcause
  | done hgrows hm ha =>
    exact .done hgrows { hm with arena := congrArg (Arena.release · k) hm.arena } ha
  | left hstop hexcused =>
    cases o with
    | done a m₁ => cases hstop
    | _ => exact .left hstop hexcused
  | right hstop hexcused =>
    cases o' with
    | done a m₁ => cases hstop
    | _ => exact .right hstop hexcused

theorem inStep_define (name : String) (h : m.InStep W reached w m') :
    (inStep W reached left right).Alike w (anything _) (Action.define k name v m)
      (Action.define k name v m') := by
  obtain ⟨origins, distances, sink, rfl⟩ := h.exists_eq
  unfold Action.define
  dsimp only
  split
  · exact .done (hW.refl w) { h with arena := rfl } trivial
  · exact .failed (hW.refl w) h rfl

theorem inStep_getAt (distance : Nat) (name : String) (h : m.InStep W reached w m') :
    (inStep W reached left right).Alike w (values _) (Action.getAt k distance name m)
      (Action.getAt k distance name m') := by
  obtain ⟨origins, distances, sink, rfl⟩ := h.exists_eq
  unfold Action.getAt
  dsimp only
  split
  · exact .done (hW.refl w) h (values_refl _)
  · exact .failed (hW.refl w) h rfl

theorem inStep_assignAt (distance : Nat) (name : String) (h : m.InStep W reached w m') :
    (inStep W reached left right).Alike w (anything _) (Action.assignAt k distance name v m)
      (Action.assignAt k distance name v m') := by
  unfold Action.assignAt
  rw [← h.arena]
  split
  · exact inStep_define hW name h
  · exact .failed (hW.refl w) h rfl

theorem inStep_get (name : String) (line : Nat) (h : m.InStep W reached w m') :
    (inStep W reached left right).Alike w (values _) (Action.get k name line m)
      (Action.get k name line m') := by
  unfold Action.get
  rw [← h.arena]
  split
  · exact .done (hW.refl w) h (values_refl _)
  · exact .failed (hW.refl w) h rfl
  · exact .failed (hW.refl w) h rfl

theorem inStep_assign (name : String) (line : Nat) (h : m.InStep W reached w m') :
    (inStep W reached left right).Alike w (anything _) (Action.assign k name v line m)
      (Action.assign k name v line m') := by
  unfold Action.assign
  rw [← h.arena]
  split
  · exact inStep_define hW name h
  · exact .failed (hW.refl w) h rfl
  · exact .failed (hW.refl w) h rfl

theorem inStep_write (text : String) (h : m.InStep W reached w m') :
    (inStep W reached left right).Alike w (anything _) (Action.write text m)
      (Action.write text m') := by
  unfold Action.write
  dsimp only
  rcases hW.write text h.sinks with ⟨w₁, hgrows, hsinks, hsame⟩ | ⟨hfull, hexcused⟩ |
    ⟨hfull, hexcused⟩
  · rw [← hsame]
    split
    · exact .done hgrows { h with sinks := hsinks } trivial
    · exact .failed hgrows { h with sinks := hsinks } rfl
  · rw [hfull]
    exact .left rfl hexcused
  · rw [hfull]
    exact .right rfl hexcused

end

/-- Machines in step stay in step. -/
theorem lawful_inStep (hW : W.Lawful left right) : (inStep W reached left right).Lawful where
  refl := hW.refl
  trans := hW.trans
  extends_ _ := ⟨id, id, id⟩
  one _ := fun ha hb ↦ ha ▸ hb ▸ Iff.rfl
  runtime cause h := congrArg (fun line ↦ Failure.runtime line cause) h
  unresolvedSuper h := congrArg (fun line ↦ Failure.internal (.unresolvedSuper line)) h
  internal _ := rfl
  globals _ := rfl
  distance? h hid := hid.1 ▸ h.distances _ hid.2
  push origin origin' h hk := hk ▸ inStep_push hW origin origin' h
  releasing hk hx := hk ▸ inStep_releasing hx
  capture h hk := by
    obtain ⟨origins, distances, sink, rfl⟩ := h.exists_eq
    cases hk
    exact .done (hW.refl _) { h with arena := rfl } trivial
  define name h hk hv := hk ▸ eq_of_values hv ▸ inStep_define hW name h
  getAt distance name h hk := hk ▸ inStep_getAt hW distance name h
  assignAt distance name h hk hv := hk ▸ eq_of_values hv ▸ inStep_assignAt hW distance name h
  get name h hk hline := hk ▸ hline ▸ inStep_get hW name _ h
  assign name h hk hv hline := hk ▸ eq_of_values hv ▸ hline ▸ inStep_assign hW name _ h
  fresh h := .done (hW.refl _) { h with nextId := congrArg (· + 1) h.nextId } h.nextId
  newObject h hc := by
    obtain ⟨origins, distances, sink, rfl⟩ := h.exists_eq
    cases eq_of_classes hc
    exact .done (hW.refl _) { h with fields := rfl } (objects_refl _)
  field? name h ho := by
    obtain ⟨origins, distances, sink, rfl⟩ := h.exists_eq
    cases eq_of_objects ho
    refine .done (hW.refl _) h ?_
    dsimp only
    cases Option.bind _ _ with
    | none => exact .none
    | some v => exact .some (values_refl v)
  setField name h ho hv := by
    obtain ⟨origins, distances, sink, rfl⟩ := h.exists_eq
    cases eq_of_objects ho
    cases eq_of_values hv
    exact .done (hW.refl _) { h with fields := rfl } trivial
  now h := by
    obtain ⟨origins, distances, sink, rfl⟩ := h.exists_eq
    exact .done (hW.refl _) { h with clock := rfl } rfl
  write text h := inStep_write hW text h

/-! ### Nodes with themselves -/

theorem names_refl (n : Name) : (inStep W reached left right).names n n := ⟨rfl, rfl⟩

theorem callees_refl (e : Expr) (h : ∀ id ∈ e.ids, reached id) :
    (inStep W reached left right).Callees e e := by
  cases e with
  | get o name => exact .get rfl (names_refl name)
  | super id line method => exact .super ⟨rfl, h id (List.mem_singleton.2 rfl)⟩ (names_refl method)
  | _ => exact .other rfl nofun nofun

/-- An expression whose names are all reached. -/
theorem expressions_refl (e : Expr) (h : ∀ id ∈ e.ids, reached id) :
    (inStep W reached left right).Expressions e e := by
  cases e with
  | literal value => exact .literal value
  | grouping e => exact .grouping rfl
  | unary op line e => exact .unary rfl rfl
  | binary op line l r => exact .binary rfl rfl rfl
  | logical op line l r => exact .logical rfl rfl
  | var id name => exact .var ⟨rfl, h id (List.mem_singleton.2 rfl)⟩ (names_refl name)
  | assign id name e =>
    exact .assign ⟨rfl, h id (List.mem_append_right _ (List.mem_singleton.2 rfl))⟩
      (names_refl name) rfl
  | call callee line args =>
    exact .call (callees_refl callee fun id hid ↦ h id (List.mem_append_left _ hid)) rfl
      (List.forall₂_same.2 fun _ _ ↦ rfl)
  | get o name => exact .get rfl (names_refl name)
  | set o name e => exact .set rfl (names_refl name) rfl
  | this id line => exact .this ⟨rfl, h id (List.mem_singleton.2 rfl)⟩ rfl
  | super id line method => exact .super ⟨rfl, h id (List.mem_singleton.2 rfl)⟩ (names_refl method)

theorem option_refl {α : Type} {R : α → α → Prop} (a : Option α) (h : ∀ b, a = some b → R b b) :
    Option.Rel R a a := by
  cases a with
  | none => exact .none
  | some b => exact .some (h b rfl)

/-- A statement whose own names are all reached. -/
theorem statements_refl (s : Stmt) (h : ∀ id ∈ s.ids, reached id) :
    (inStep W reached left right).Statements s s := by
  cases s with
  | expression e => exact .expression rfl
  | print e => exact .print rfl
  | var name initial => exact .var rfl (option_refl _ fun _ _ ↦ rfl)
  | block body => exact .block (List.forall₂_same.2 fun _ _ ↦ rfl)
  | ifThen test s => exact .ifThen rfl rfl
  | ifElse test s t => exact .ifElse rfl rfl rfl
  | loop test s => exact .loop rfl rfl
  | function r => exact .function rfl
  | return_ line value => exact .return_ (option_refl _ fun _ _ ↦ rfl)
  | class_ name superclass methods =>
    refine .class_ (names_refl name) (option_refl _ fun s hs ↦ ?_)
      (List.forall₂_same.2 fun _ _ ↦ rfl)
    subst hs
    exact ⟨⟨rfl, h s.id (List.mem_append_left _ (List.mem_singleton.2 rfl))⟩, names_refl s.name⟩

end Comparison

end Lox
