import Lox.Proofs.Arena.Mapping
import Lox.Proofs.Calls.Agreement
import Lox.Proofs.Outlines.Resolving

/-!
Runs of outlines. A run looks up distances by the identities of its nodes and has no other use for
them, and lines come up only in the messages of failures. So the outline of a program, given the
distances under the changed identities, runs like the program, step by step: its frames are the
same, with functions that have outlines for routines (`Program.run_outline`).
-/

set_option autoImplicit false

namespace Lox

variable {ρ : NodeId → NodeId}

/-! ### Failures -/

/-- The failure on no line. -/
def Failure.unlined : Failure → Failure
  | .runtime _ cause => .runtime 0 cause
  | .internal (.unresolvedSuper _) => .internal (.unresolvedSuper 0)
  | cause => cause

/-- The run with no line in its message. -/
def Run.unlined : Run → Run
  | .rejected diagnostics => .rejected (diagnostics.map Diagnostic.unlined)
  | .failed cause printed => .failed cause.unlined printed
  | run => run

theorem InternalFault.Bare.unlined {fault : InternalFault} (h : fault.Bare) :
    (Failure.internal fault).unlined = .internal fault := by
  cases fault <;> first | rfl | exact h.elim

/-! ### Nodes and values -/

theorem Expr.forall₂_outlineAll (ρ : NodeId → NodeId) (es : List Expr) :
    List.Forall₂ (fun e e' : Expr ↦ e.outline ρ = e') es (Expr.outlineAll ρ es) := by
  induction es with
  | nil => exact .nil
  | cons e es ih => exact .cons rfl ih

theorem Stmt.forall₂_outlineAll (ρ : NodeId → NodeId) (ss : List Stmt) :
    List.Forall₂ (fun s s' : Stmt ↦ s.outline ρ = s') ss (Stmt.outlineAll ρ ss) := by
  induction ss with
  | nil => exact .nil
  | cons s ss ih => exact .cons rfl ih

theorem Routine.forall₂_outlineAll (ρ : NodeId → NodeId) (rs : List Routine) :
    List.Forall₂ (fun r r' : Routine ↦ r.outline ρ = r') rs (Routine.outlineAll ρ rs) := by
  induction rs with
  | nil => exact .nil
  | cons r rs ih => exact .cons rfl ih

/-- Nodes to the left, their outlines to the right. -/
def Matching.outline (ρ : NodeId → NodeId) : Matching where
  exprs e e' := e.outline ρ = e'
  stmts s s' := s.outline ρ = s'
  routines r r' := r.outline ρ = r'
  name {r _} h := by cases r; exact h ▸ rfl
  parameters {r _} h := by
    cases r
    subst h
    simp [Routine.outline, Name.outline]
  body {r _} h := by cases r; exact h ▸ Stmt.forall₂_outlineAll ρ _

def Pairing.outline (ρ : NodeId → NodeId) : Pairing := ⟨.outline ρ, Eq, Eq⟩

def Function.outline (ρ : NodeId → NodeId) (f : Function) : Function :=
  { f with routine := f.routine.outline ρ }

def ClassLayer.outline (ρ : NodeId → NodeId) (l : ClassLayer) : ClassLayer :=
  { l with methods := l.methods.map (Function.outline ρ) }

def Class.outline (ρ : NodeId → NodeId) (c : Class) : Class :=
  ⟨c.own.outline ρ, c.ancestors.map (ClassLayer.outline ρ)⟩

def Object.outline (ρ : NodeId → NodeId) (o : Object) : Object := ⟨o.id, o.class_.outline ρ⟩

/-- The value with outlines for the routines in it. -/
def Value.outline (ρ : NodeId → NodeId) : Value → Value
  | .function id f => .function id (f.outline ρ)
  | .class_ c => .class_ (c.outline ρ)
  | .object o => .object (o.outline ρ)
  | v => v

theorem Bindings.pairs_map {κ α β : Type} {g : α → β} {b : Bindings κ α} {b' : Bindings κ β} :
    b.Pairs (fun a a' ↦ g a = a') b' ↔ b.map g = b' := by
  have hentry : (fun (e : κ × α) (e' : κ × β) ↦ e.1 = e'.1 ∧ g e.2 = e'.2) =
      fun e e' ↦ (e.1, g e.2) = e' := by
    funext e e'
    exact propext Prod.mk_inj.symm
  obtain ⟨entries⟩ := b
  obtain ⟨entries'⟩ := b'
  unfold Bindings.Pairs
  rw [hentry, ← List.forall₂_map_left_iff (R := Eq), List.forall₂_eq_eq_eq]
  exact ⟨congrArg Bindings.mk, congrArg Bindings.entries⟩

theorem Function.pairs_outline :
    Function.Pairs (.outline ρ) = fun f f' ↦ f.outline ρ = f' := by
  funext f f'
  refine propext ⟨?_, fun h ↦ h ▸ ⟨rfl, rfl, rfl⟩⟩
  rintro ⟨hroutine, hclosure, hinitializer⟩
  cases f
  cases f'
  cases hroutine
  cases hclosure
  cases hinitializer
  rfl

theorem ClassLayer.pairs_outline :
    ClassLayer.Pairs (.outline ρ) = fun l l' ↦ l.outline ρ = l' := by
  funext l l'
  refine propext ⟨?_, fun h ↦ ?_⟩
  · rintro ⟨hid, hname, hmethods⟩
    rw [Function.pairs_outline] at hmethods
    cases l
    cases l'
    cases hid
    cases hname
    cases Bindings.pairs_map.1 hmethods
    rfl
  · subst h
    refine ⟨rfl, rfl, ?_⟩
    rw [Function.pairs_outline]
    exact Bindings.pairs_map.2 rfl

theorem Class.pairs_outline : Class.Pairs (.outline ρ) = fun c c' ↦ c.outline ρ = c' := by
  have hlist (ls ls' : List ClassLayer) :
      List.Forall₂ (ClassLayer.Pairs (.outline ρ)) ls ls' ↔
        ls.map (ClassLayer.outline ρ) = ls' := by
    rw [ClassLayer.pairs_outline, ← List.forall₂_map_left_iff (R := Eq), List.forall₂_eq_eq_eq]
  funext c c'
  refine propext ⟨?_, fun h ↦ ?_⟩
  · rintro ⟨hown, hancestors⟩
    rw [hlist] at hancestors
    rw [ClassLayer.pairs_outline] at hown
    cases c
    cases c'
    cases hown
    cases hancestors
    rfl
  · subst h
    refine ⟨?_, (hlist _ _).2 rfl⟩
    rw [ClassLayer.pairs_outline]
    rfl

theorem Object.pairs_outline : Object.Pairs (.outline ρ) = fun o o' ↦ o.outline ρ = o' := by
  funext o o'
  refine propext ⟨?_, fun h ↦ ?_⟩
  · rintro ⟨hid, hclass⟩
    rw [Class.pairs_outline] at hclass
    cases o
    cases o'
    cases hid
    cases hclass
    rfl
  · subst h
    refine ⟨rfl, ?_⟩
    rw [Class.pairs_outline]
    rfl

theorem Value.Plain.outline {v : Value} (h : v.Plain) : v.outline ρ = v := by
  cases v <;> first | rfl | exact h.elim

theorem Value.pairs_outline : Value.Pairs (.outline ρ) = fun v v' ↦ v.outline ρ = v' := by
  funext v v'
  refine propext ⟨fun h ↦ ?_, fun h ↦ ?_⟩
  · cases h with
    | plain hplain => exact hplain.outline
    | function hid hf =>
      rw [Function.pairs_outline] at hf
      exact congrArg₂ Value.function hid hf
    | class_ hc =>
      rw [Class.pairs_outline] at hc
      exact congrArg Value.class_ hc
    | object ho =>
      rw [Object.pairs_outline] at ho
      exact congrArg Value.object ho
  · subst h
    cases v with
    | function id f => exact .function rfl (by rw [Function.pairs_outline])
    | class_ c => exact .class_ (by rw [Class.pairs_outline])
    | object o => exact .object (by rw [Object.pairs_outline])
    | _ => exact .plain trivial

/-! ### Machines -/

/-- The machine has outlines for the routines in its values, and the distances of the other one
under changed identities. -/
structure Machine.Outlines (ρ : NodeId → NodeId) (m m' : Machine) : Prop where
  arena : m'.arena = m.arena.map (Value.outline ρ)
  fields : m'.fields = m.fields.map (Bindings.map (Value.outline ρ))
  distances : ∀ id, m'.distances.find? (ρ id) = m.distances.find? id
  nextId : m'.nextId = m.nextId
  sink : m'.sink = m.sink
  clock : m'.clock = m.clock

namespace Comparison

/-- Programs and their outlines, on machines of their own. -/
def outline (ρ : NodeId → NodeId) : Comparison where
  toMatching := .outline ρ
  World := Unit
  Grows := Eq
  frames _ := Eq
  ids _ := Eq
  machines _ := Machine.Outlines ρ
  failures cause cause' := cause' = cause.unlined
  lines _ line' := line' = 0
  nodes id id' := id' = ρ id
  left _ := False
  right _ := False

variable {w : (outline ρ).World} {m m' : Machine} {k : FrameId} {v v' : Value}

theorem outline_values : (outline ρ).values w v v' ↔ v.outline ρ = v' :=
  iff_of_eq (congrFun (congrFun Value.pairs_outline v) v')

theorem outline_objects {o o' : Object} : (outline ρ).objects w o o' ↔ o.outline ρ = o' :=
  iff_of_eq (congrFun (congrFun Object.pairs_outline o) o')

theorem outline_classes {c c' : Class} : (outline ρ).classes w c c' ↔ c.outline ρ = c' :=
  iff_of_eq (congrFun (congrFun Class.pairs_outline c) c')

theorem outline_push (origin origin' : Origin) (h : m.Outlines ρ m') :
    (outline ρ).Alike w (fun _ ↦ Eq) (Action.push origin k m) (Action.push origin' k m') := by
  refine .done rfl { h with arena := ?_ } ?_
  · dsimp only
    rw [h.arena, Arena.push_map]
  · rw [h.arena, Arena.nextFrame_map]

theorem outline_releasing {α β : Type} {answers : Unit → α → β → Prop} {x : Action α}
    {x' : Action β} (hx : (outline ρ).Alike w answers (x m) (x' m')) :
    (outline ρ).Alike w answers (Action.releasing k x m) (Action.releasing k x' m') := by
  have hreleased {m m' : Machine} (h : m.Outlines ρ m') :
      Machine.Outlines ρ { m with arena := m.arena.release k }
        { m' with arena := m'.arena.release k } :=
    { h with arena := by dsimp only; rw [h.arena, Arena.release_map] }
  unfold Action.releasing
  generalize x m = o at hx
  generalize x' m' = o' at hx
  cases hx with
  | outOfFuel => exact .outOfFuel
  | failed hgrows hm hcause => exact .failed hgrows (hreleased hm) hcause
  | done hgrows hm ha => exact .done hgrows (hreleased hm) ha
  | left _ hexcused => exact hexcused.elim
  | right _ hexcused => exact hexcused.elim

theorem outline_capture (h : m.Outlines ρ m') :
    (outline ρ).Alike w (anything _) (Action.capture k m) (Action.capture k m') := by
  refine .done rfl { h with arena := ?_ } trivial
  dsimp only
  rw [h.arena, Arena.capture_map]

theorem outline_define (name : String) (h : m.Outlines ρ m') :
    (outline ρ).Alike w (anything _) (Action.define k name v m)
      (Action.define k name (v.outline ρ) m') := by
  have hframe := Arena.frame_map (Value.outline ρ) m.arena k
  unfold Action.define
  rw [h.arena, hframe]
  cases m.arena.frame k with
  | error fault => exact .failed rfl h rfl
  | ok f => exact .done rfl { h with arena := Arena.bind_map _ _ k f name v } trivial

theorem outline_getAt (distance : Nat) (name : String) (h : m.Outlines ρ m') :
    (outline ρ).Alike w (values _) (Action.getAt k distance name m)
      (Action.getAt k distance name m') := by
  have hread := Arena.getAt_map (Value.outline ρ) m.arena k distance name
  unfold Action.getAt
  rw [h.arena, hread]
  cases m.arena.getAt k distance name with
  | error fault => exact .failed rfl h rfl
  | ok v => exact .done rfl h (outline_values.2 rfl)

theorem outline_assignAt (distance : Nat) (name : String) (h : m.Outlines ρ m') :
    (outline ρ).Alike w (anything _) (Action.assignAt k distance name v m)
      (Action.assignAt k distance name (v.outline ρ) m') := by
  have hholder := Arena.holderAt_map (Value.outline ρ) m.arena k distance name
  unfold Action.assignAt
  rw [h.arena, hholder]
  cases m.arena.holderAt k distance name with
  | error fault => exact .failed rfl h rfl
  | ok target => exact outline_define name h

theorem outline_get (name : String) (line : Nat) (h : m.Outlines ρ m') :
    (outline ρ).Alike w (values _) (Action.get k name line m) (Action.get k name 0 m') := by
  have hread := Arena.get_map (Value.outline ρ) m.arena k name
  unfold Action.get
  rw [h.arena, hread]
  cases m.arena.get k name with
  | error fault => exact .failed rfl h rfl
  | ok v? =>
    cases v? with
    | none => exact .failed rfl h rfl
    | some v => exact .done rfl h (outline_values.2 rfl)

theorem outline_assign (name : String) (line : Nat) (h : m.Outlines ρ m') :
    (outline ρ).Alike w (anything _) (Action.assign k name v line m)
      (Action.assign k name (v.outline ρ) 0 m') := by
  have hholder := Arena.holder_map (Value.outline ρ) m.arena k name
  unfold Action.assign
  rw [h.arena, hholder]
  cases m.arena.holder k name with
  | error fault => exact .failed rfl h rfl
  | ok target? =>
    cases target? with
    | none => exact .failed rfl h rfl
    | some target => exact outline_define name h

theorem outline_newObject {c : Class} (h : m.Outlines ρ m') :
    (outline ρ).Alike w (objects _) (Action.newObject c m)
      (Action.newObject (c.outline ρ) m') := by
  refine .done rfl { h with fields := ?_ } (outline_objects.2 ?_)
  · dsimp only
    rw [h.fields, Array.map_push]
    rfl
  · rw [h.fields, Array.size_map]
    rfl

theorem outline_field? (name : String) {o : Object} (h : m.Outlines ρ m') :
    (outline ρ).Alike w (options (values _)) (Action.field? o name m)
      (Action.field? (o.outline ρ) name m') := by
  have hfield : (m'.fields[o.id]?.bind fun table ↦ table.find? name) =
      (m.fields[o.id]?.bind fun table ↦ table.find? name).map (Value.outline ρ) := by
    rw [h.fields, Array.getElem?_map]
    cases m.fields[o.id]? with
    | none => rfl
    | some table => exact Bindings.find?_map _ table name
  refine .done rfl h ?_
  change Option.Rel _ _ (m'.fields[o.id]?.bind _)
  rw [hfield]
  cases Option.bind _ _ with
  | none => exact .none
  | some v => exact .some (outline_values.2 rfl)

theorem outline_setField (name : String) {o : Object} (h : m.Outlines ρ m') :
    (outline ρ).Alike w (anything _) (Action.setField o name v m)
      (Action.setField (o.outline ρ) name (v.outline ρ) m') := by
  refine .done rfl { h with fields := ?_ } trivial
  dsimp only
  rw [h.fields]
  refine Array.ext_getElem? fun i ↦ ?_
  simp only [Array.getElem?_modify, Array.getElem?_map, Object.outline]
  split
  · cases m.fields[i]? with
    | none => rfl
    | some table => exact congrArg some (Bindings.map_insert _ table name v).symm
  · rfl

theorem outline_write (text : String) (h : m.Outlines ρ m') :
    (outline ρ).Alike w (anything _) (Action.write text m) (Action.write text m') := by
  unfold Action.write
  dsimp only
  rw [h.sink]
  split
  · exact .done rfl { h with sink := rfl } trivial
  · exact .failed rfl { h with sink := rfl } rfl

theorem lawful_outline : (outline ρ).Lawful where
  refl _ := rfl
  trans := Eq.trans
  extends_ _ := ⟨id, id, id⟩
  one _ _ _ _ _ ha hb := by
    cases ha
    cases hb
    rfl
  runtime cause h := h ▸ rfl
  unresolvedSuper h := h ▸ rfl
  internal h := h.unlined.symm
  globals _ := rfl
  distance? h hid := hid ▸ (h.distances _).symm
  push origin origin' h hk := hk ▸ outline_push origin origin' h
  releasing hk hx := hk ▸ outline_releasing hx
  capture h hk := hk ▸ outline_capture h
  define name h hk hv := hk ▸ outline_values.1 hv ▸ outline_define name h
  getAt distance name h hk := hk ▸ outline_getAt distance name h
  assignAt distance name h hk hv := hk ▸ outline_values.1 hv ▸ outline_assignAt distance name h
  get name h hk hline := hk ▸ hline ▸ outline_get name _ h
  assign name h hk hv hline := hk ▸ hline ▸ outline_values.1 hv ▸ outline_assign name _ h
  fresh h := .done rfl { h with nextId := congrArg (· + 1) h.nextId } h.nextId.symm
  newObject h hc := outline_classes.1 hc ▸ outline_newObject h
  field? name h ho := outline_objects.1 ho ▸ outline_field? name h
  setField name h ho hv := outline_objects.1 ho ▸ outline_values.1 hv ▸ outline_setField name h
  now h := .done rfl { h with clock := congrArg Clock.tick h.clock }
    (congrArg Clock.now h.clock).symm
  write := outline_write

/-! ### Nodes with their outlines -/

theorem names_outline (n : Name) : (outline ρ).names n n.outline := ⟨rfl, rfl⟩

theorem callees_outline (e : Expr) : (outline ρ).Callees e (e.outline ρ) := by
  cases e with
  | get o name => exact .get rfl (names_outline name)
  | super id line method => exact .super rfl (names_outline method)
  | _ => exact .other rfl nofun nofun

theorem expressions_outline (e : Expr) : (outline ρ).Expressions e (e.outline ρ) := by
  cases e with
  | literal value => exact .literal value
  | grouping e => exact .grouping rfl
  | unary op line e => exact .unary rfl rfl
  | binary op line l r => exact .binary rfl rfl rfl
  | logical op line l r => exact .logical rfl rfl
  | var id name => exact .var rfl (names_outline name)
  | assign id name e => exact .assign rfl (names_outline name) rfl
  | call callee line args =>
    exact .call (callees_outline callee) rfl (Expr.forall₂_outlineAll ρ args)
  | get o name => exact .get rfl (names_outline name)
  | set o name e => exact .set rfl (names_outline name) rfl
  | this id line => exact .this rfl rfl
  | super id line method => exact .super rfl (names_outline method)

theorem rel_map {α β : Type} {R : α → β → Prop} {g : α → β} (h : ∀ a, R a (g a)) (a : Option α) :
    Option.Rel R a (a.map g) := by
  cases a with
  | none => exact .none
  | some a => exact .some (h a)

theorem statements_outline (s : Stmt) : (outline ρ).Statements s (s.outline ρ) := by
  cases s with
  | expression e => exact .expression rfl
  | print e => exact .print rfl
  | var name initial => exact .var rfl (rel_map (fun _ ↦ rfl) initial)
  | block body => exact .block (Stmt.forall₂_outlineAll ρ body)
  | ifThen test s => exact .ifThen rfl rfl
  | ifElse test s t => exact .ifElse rfl rfl rfl
  | loop test s => exact .loop rfl rfl
  | function r => exact .function rfl
  | return_ line value => exact .return_ (rel_map (fun _ ↦ rfl) value)
  | class_ name superclass methods =>
    exact .class_ (names_outline name) (rel_map (fun s ↦ ⟨rfl, names_outline s.name⟩) superclass)
      (Routine.forall₂_outlineAll ρ methods)

theorem evaluators_outline (fuel : Nat) :
    (outline ρ).Evaluators (evaluator fuel) (evaluator fuel) := by
  induction fuel with
  | zero => exact ⟨fun _ _ _ ↦ .outOfFuel, fun _ _ _ ↦ .outOfFuel⟩
  | succ fuel ih =>
    refine ⟨fun {w m m' env env' e e'} he hm henv ↦ ?_,
      fun {w m m' env env' s s'} hs hm henv ↦ ?_⟩
    · cases he
      exact alike_evaluate lawful_outline ih (expressions_outline e) hm henv
    · cases hs
      exact alike_execute lawful_outline ih (statements_outline s) ⟨.inl le_rfl, .inl le_rfl⟩ hm
        henv

/-- What shows of outcomes that are alike differs in lines only. -/
theorem Alike.run_unlined {o o' : Outcome Unit} (h : (outline ρ).Alike w (anything _) o o') :
    Run.of o' = (Run.of o).unlined := by
  cases h with
  | outOfFuel => rfl
  | failed _ hm hcause => exact congrArg₂ Run.failed hcause (congrArg Sink.written hm.sink)
  | done _ hm _ => exact congrArg (fun sink ↦ Run.finished sink.written) hm.sink
  | left _ hexcused => exact hexcused.elim
  | right _ hexcused => exact hexcused.elim

end Comparison

/-! ### Programs -/

namespace Program

/-- The outline of a program, with its distances under the changed identities. -/
def outline (ρ : NodeId → NodeId) (p : Program) : Program :=
  ⟨Stmt.outlineAll ρ p.statements, p.distances.mapKeys ρ⟩

theorem outlines_initial (hρ : Function.Injective ρ) (sink : Sink) (clock : Clock) (D : Distances) :
    Machine.Outlines ρ ((Machine.initial sink clock).install D)
      ((Machine.initial sink clock).install (D.mapKeys ρ)) where
  arena := by
    have hnatives := Native.pairs_bindings (.outline ρ)
    rw [Value.pairs_outline, Bindings.pairs_map] at hnatives
    change Arena.ofGlobals Native.bindings = (Arena.ofGlobals Native.bindings).map _
    simp [Arena.ofGlobals, Arena.map, Frame.map, hnatives]
  fields := by simp [Machine.initial, Machine.install]
  distances id := by
    have hmerged := Bindings.mapKeys_merge hρ .empty D
    exact (congrArg (Bindings.find? · (ρ id)) hmerged.symm).trans (Bindings.find?_mapKeys hρ _ id)
  nextId := rfl
  sink := rfl
  clock := rfl

theorem run_outline (hρ : Function.Injective ρ) (p : Program) (fuel : Nat) (sink : Sink)
    (clock : Clock) :
    Run.of ((p.outline ρ).run fuel (.initial sink clock)) =
      (Run.of (p.run fuel (.initial sink clock))).unlined := by
  have hstart := outlines_initial hρ sink clock p.distances
  have halike : (Comparison.outline ρ).Alike () (Comparison.anything _) _ _ :=
    Comparison.alike_runStatements Comparison.lawful_outline (Comparison.evaluators_outline fuel)
      (Stmt.forall₂_outlineAll ρ p.statements) hstart
  exact halike.run_unlined

end Program

end Lox
