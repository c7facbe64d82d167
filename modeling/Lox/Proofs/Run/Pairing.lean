import Mathlib.Data.List.Forall2
import Lox.Proofs.Bindings
import Lox.Proofs.Run.Endings

/-!
Values of two runs that belong together. A pairing says which frames, which identities of functions
and classes and which statements of the one belong to which of the other. Values that are made of
what is paired are told apart by nothing in the language: not by what they print, nor by what they
are equal to, nor by how many arguments they take.
-/

set_option autoImplicit false

namespace Lox

namespace Bindings

variable {κ α β : Type} [DecidableEq κ] {R : α → β → Prop}

/-- Tables with the same keys, in the same order, and values that belong together. -/
def Pairs (R : α → β → Prop) (b : Bindings κ α) (b' : Bindings κ β) : Prop :=
  List.Forall₂ (fun e e' ↦ e.1 = e'.1 ∧ R e.2 e'.2) b.entries b'.entries

omit [DecidableEq κ] in
theorem pairs_empty : (empty : Bindings κ α).Pairs R empty := .nil

omit [DecidableEq κ] in
theorem Pairs.imp {b : Bindings κ α} {b' : Bindings κ β} (h : b.Pairs R b')
    {S : α → β → Prop} (himp : ∀ a a', R a a' → S a a') : b.Pairs S b' :=
  List.Forall₂.imp (fun _ _ he ↦ ⟨he.1, himp _ _ he.2⟩) h

theorem Pairs.find? {b : Bindings κ α} {b' : Bindings κ β} (h : b.Pairs R b') (key : κ) :
    Option.Rel R (b.find? key) (b'.find? key) := by
  obtain ⟨entries⟩ := b
  obtain ⟨entries'⟩ := b'
  change List.Forall₂ _ entries entries' at h
  change Option.Rel R (lookup key entries) (lookup key entries')
  induction h with
  | nil => exact .none
  | @cons e e' _ _ hentry _ ih =>
    obtain ⟨k, a⟩ := e
    obtain ⟨k', a'⟩ := e'
    obtain ⟨rfl, ha⟩ := hentry
    by_cases hk : k = key
    · simp only [lookup, hk, if_true]
      exact .some ha
    · simp only [lookup, hk, if_false]
      exact ih

theorem Pairs.contains {b : Bindings κ α} {b' : Bindings κ β} (h : b.Pairs R b') (key : κ) :
    b'.contains key = b.contains key := by
  have hfind := h.find? key
  unfold Bindings.contains
  generalize b.find? key = a? at hfind
  generalize b'.find? key = a?' at hfind
  cases hfind <;> rfl

theorem Pairs.insert {b : Bindings κ α} {b' : Bindings κ β} (h : b.Pairs R b') (key : κ) {a : α}
    {a' : β} (ha : R a a') : (b.insert key a).Pairs R (b'.insert key a') := by
  obtain ⟨entries⟩ := b
  obtain ⟨entries'⟩ := b'
  change List.Forall₂ _ entries entries' at h
  change List.Forall₂ _ (put key a entries) (put key a' entries')
  induction h with
  | nil => exact .cons ⟨rfl, ha⟩ .nil
  | @cons e e' _ _ hentry hrest ih =>
    obtain ⟨k, b⟩ := e
    obtain ⟨k', b'⟩ := e'
    obtain ⟨rfl, hb⟩ := hentry
    by_cases hk : k = key
    · simp only [put, hk, if_true]
      exact .cons ⟨rfl, ha⟩ hrest
    · simp only [put, hk, if_false]
      exact .cons ⟨rfl, hb⟩ ih

theorem Pairs.merge {b : Bindings κ α} {b' : Bindings κ β} (h : b.Pairs R b')
    {entries : List (κ × α)} {entries' : List (κ × β)}
    (hentries : (⟨entries⟩ : Bindings κ α).Pairs R ⟨entries'⟩) :
    (b.merge ⟨entries⟩).Pairs R (b'.merge ⟨entries'⟩) := by
  change List.Forall₂ _ entries entries' at hentries
  induction hentries generalizing b b' with
  | nil => exact h
  | @cons e e' _ _ hentry _ ih =>
    obtain ⟨k, a⟩ := e
    obtain ⟨k', a'⟩ := e'
    obtain ⟨rfl, ha⟩ := hentry
    rw [merge_cons, merge_cons]
    exact ih (h.insert k ha)

end Bindings

/-- Which nodes of two programs belong together. Names of routines and of their parameters count by
their texts. -/
structure Matching where
  exprs : Expr → Expr → Prop
  stmts : Stmt → Stmt → Prop
  routines : Routine → Routine → Prop
  name : ∀ {r r'}, routines r r' → r.name.text = r'.name.text
  parameters : ∀ {r r'}, routines r r' → r.parameters.map Name.text = r'.parameters.map Name.text
  body : ∀ {r r'}, routines r r' → List.Forall₂ stmts r.body r'.body

/-- What of two runs belongs together. -/
structure Pairing extends Matching where
  frames : FrameId → FrameId → Prop
  ids : Nat → Nat → Prop

/-- What has been paired stays so. -/
structure Pairing.Extends (π π' : Pairing) : Prop where
  frames : ∀ {k k'}, π.frames k k' → π'.frames k k'
  ids : ∀ {id id'}, π.ids id id' → π'.ids id id'
  routines : ∀ {r r'}, π.routines r r' → π'.routines r r'

variable {π π' : Pairing}

/-! ### Functions -/

structure Function.Pairs (π : Pairing) (f f' : Function) : Prop where
  routine : π.routines f.routine f'.routine
  closure : π.frames f.closure f'.closure
  isInitializer : f.isInitializer = f'.isInitializer

theorem Function.Pairs.extend {f f' : Function} (h : f.Pairs π f') (hπ : π.Extends π') :
    f.Pairs π' f' :=
  ⟨hπ.routines h.routine, hπ.frames h.closure, h.isInitializer⟩

theorem Function.Pairs.arity {f f' : Function} (h : f.Pairs π f') : f.arity = f'.arity := by
  have hlength := congrArg List.length (π.parameters h.routine)
  rwa [List.length_map, List.length_map] at hlength

/-! ### Classes and objects -/

structure ClassLayer.Pairs (π : Pairing) (l l' : ClassLayer) : Prop where
  id : π.ids l.id l'.id
  name : l.name = l'.name
  methods : l.methods.Pairs (Function.Pairs π) l'.methods

theorem ClassLayer.Pairs.extend {l l' : ClassLayer} (h : l.Pairs π l') (hπ : π.Extends π') :
    l.Pairs π' l' :=
  ⟨hπ.ids h.id, h.name, h.methods.imp fun _ _ hf ↦ hf.extend hπ⟩

structure Class.Pairs (π : Pairing) (c c' : Class) : Prop where
  own : c.own.Pairs π c'.own
  ancestors : List.Forall₂ (ClassLayer.Pairs π) c.ancestors c'.ancestors

namespace Class.Pairs

variable {c c' : Class}

theorem extend (h : c.Pairs π c') (hπ : π.Extends π') : c.Pairs π' c' :=
  ⟨h.own.extend hπ, h.ancestors.imp fun _ _ hl ↦ hl.extend hπ⟩

theorem layers (h : c.Pairs π c') : List.Forall₂ (ClassLayer.Pairs π) c.layers c'.layers :=
  .cons h.own h.ancestors

theorem method? (h : c.Pairs π c') (name : String) :
    Option.Rel (Function.Pairs π) (c.method? name) (c'.method? name) := by
  have hlayers := h.layers
  unfold Class.method?
  generalize c.layers = ls at hlayers
  generalize c'.layers = ls' at hlayers
  induction hlayers with
  | nil => exact .none
  | @cons l l' _ _ hl _ ih =>
    rw [List.findSome?_cons, List.findSome?_cons]
    have hfind := hl.methods.find? name
    generalize l.methods.find? name = f? at hfind
    generalize l'.methods.find? name = f?' at hfind
    cases hfind with
    | some hf => exact .some hf
    | none => exact ih

theorem arity (h : c.Pairs π c') : c.arity = c'.arity := by
  have hinit := h.method? initializerName
  unfold Class.arity
  generalize c.method? initializerName = f? at hinit
  generalize c'.method? initializerName = f?' at hinit
  cases hinit with
  | some hf => exact hf.arity
  | none => rfl

end Class.Pairs

/-- Objects are made at the same moments of both runs. -/
structure Object.Pairs (π : Pairing) (o o' : Object) : Prop where
  id : o.id = o'.id
  class_ : o.class_.Pairs π o'.class_

theorem Object.Pairs.extend {o o' : Object} (h : o.Pairs π o') (hπ : π.Extends π') :
    o.Pairs π' o' :=
  ⟨h.id, h.class_.extend hπ⟩

/-! ### Values -/

inductive Value.Pairs (π : Pairing) : Value → Value → Prop
  | plain {v : Value} (plain : v.Plain) : Pairs π v v
  | function {id id' : Nat} {f f' : Function} (ids : π.ids id id') (pairs : f.Pairs π f') :
    Pairs π (.function id f) (.function id' f')
  | class_ {c c' : Class} (pairs : c.Pairs π c') : Pairs π (.class_ c) (.class_ c')
  | object {o o' : Object} (pairs : o.Pairs π o') : Pairs π (.object o) (.object o')

namespace Value.Pairs

variable {v v' w w' : Value}

theorem extend (h : v.Pairs π v') (hπ : π.Extends π') : v.Pairs π' v' := by
  cases h with
  | plain hplain => exact .plain hplain
  | function hid hf => exact .function (hπ.ids hid) (hf.extend hπ)
  | class_ hc => exact .class_ (hc.extend hπ)
  | object ho => exact .object (ho.extend hπ)

theorem truthy (h : v.Pairs π v') : v.truthy = v'.truthy := by
  cases h <;> rfl

theorem text (h : v.Pairs π v') : v.text = v'.text := by
  cases h with
  | plain _ => rfl
  | function _ hf => exact congrArg (fun name ↦ "<fn " ++ name ++ ">") (π.name hf.routine)
  | class_ hc => exact hc.own.name
  | object ho => exact congrArg (fun name ↦ name ++ " instance") ho.class_.own.name

theorem arity? (h : v.Pairs π v') : v.arity? = v'.arity? := by
  cases h with
  | plain _ => rfl
  | function _ hf => exact congrArg some hf.arity
  | class_ hc => exact congrArg some hc.arity
  | object _ => rfl

/-- Identities are paired one to one. -/
theorem same (hone : ∀ {a a' b b'}, π.ids a a' → π.ids b b' → (a = b ↔ a' = b'))
    (hv : v.Pairs π v') (hw : w.Pairs π w') : v.same w = v'.same w' := by
  have hids {a a' b b' : Nat} (h : a = b ↔ a' = b') : (a == b) = (a' == b') := by
    rw [Bool.eq_iff_iff, beq_iff_eq, beq_iff_eq, h]
  cases hv with
  | plain hplain =>
    cases hw with
    | plain hplain' => rfl
    | _ => cases v <;> first | rfl | exact hplain.elim
  | function hid hf =>
    cases hw with
    | plain hplain => cases w <;> first | rfl | exact hplain.elim
    | function hid' hf' => exact hids (hone hid hid')
    | _ => rfl
  | class_ hc =>
    cases hw with
    | plain hplain => cases w <;> first | rfl | exact hplain.elim
    | class_ hc' => exact hids (hone hc.own.id hc'.own.id)
    | _ => rfl
  | object ho =>
    cases hw with
    | plain hplain => cases w <;> first | rfl | exact hplain.elim
    | @object p p' ho' =>
      refine hids ?_
      rw [ho.id, ho'.id]
    | _ => rfl

end Value.Pairs

inductive Flow.Pairs (π : Pairing) : Flow → Flow → Prop
  | normal : Pairs π .normal .normal
  | returned {v v' : Value} (pairs : v.Pairs π v') : Pairs π (.returned v) (.returned v')

theorem Flow.Pairs.value {flow flow' : Flow} (h : flow.Pairs π flow') :
    flow.value.Pairs π flow'.value := by
  cases h with
  | normal => exact .plain trivial
  | returned hv => exact hv

inductive Target.Pairs (π : Pairing) : Target → Target → Prop
  | value {v v' : Value} (pairs : v.Pairs π v') : Pairs π (.value v) (.value v')
  | method {f f' : Function} {o o' : Object} (function : f.Pairs π f') (receiver : o.Pairs π o') :
    Pairs π (.method f o) (.method f' o')

theorem Target.Pairs.extend {t t' : Target} (h : t.Pairs π t') (hπ : π.Extends π') :
    t.Pairs π' t' := by
  cases h with
  | value hv => exact .value (hv.extend hπ)
  | method hf ho => exact .method (hf.extend hπ) (ho.extend hπ)

/-! ### Operators and native functions -/

namespace Evaluation

variable {v v' w w' : Value}

/-- What an operator makes of two values, whatever the line. -/
def operate (op : BinaryOp) (left right : Value) : Except RuntimeError Value :=
  match op, left, right with
  | .equal, a, b => .ok (.bool (a.same b))
  | .notEqual, a, b => .ok (.bool !a.same b)
  | op, .number a, .number b => .ok (numeric op a b)
  | .add, .string a, .string b => .ok (.string (a ++ b))
  | .add, _, _ => .error .addedOperands
  | op, _, _ => .error (.numericOperands op)

theorem binary_eq (op : BinaryOp) (line : Nat) (v w : Value) :
    binary op line v w = match operate op v w with
      | .ok x => Pure.pure x
      | .error cause => .failAt line cause := by
  unfold binary operate
  split <;> simp [*]

theorem operate_plain {op : BinaryOp} {x : Value} (h : operate op v w = .ok x) : x.Plain := by
  unfold operate at h
  split at h <;> cases h
  · trivial
  · trivial
  · cases op <;> trivial
  · trivial

/-- An operator on two values answers a value that is plain, or fails, and leaves the machine as it
is. -/
theorem binary_plain (op : BinaryOp) (line : Nat) (v w : Value) :
    (∃ x : Value, binary op line v w = Pure.pure x ∧ x.Plain) ∨
      ∃ cause, binary op line v w = Action.failAt line cause := by
  rw [binary_eq]
  cases hanswer : operate op v w with
  | ok x => exact Or.inl ⟨x, rfl, operate_plain hanswer⟩
  | error cause => exact Or.inr ⟨cause, rfl⟩

theorem operate_pairs (hone : ∀ {a a' b b'}, π.ids a a' → π.ids b b' → (a = b ↔ a' = b'))
    (op : BinaryOp) (hv : v.Pairs π v') (hw : w.Pairs π w') :
    operate op v' w' = operate op v w := by
  cases op with
  | equal => exact congrArg (fun b ↦ Except.ok (Value.bool b)) (hv.same hone hw).symm
  | notEqual => exact congrArg (fun b ↦ Except.ok (Value.bool !b)) (hv.same hone hw).symm
  | _ =>
    cases hv with
    | plain hplain =>
      cases hw with
      | plain hplain' => rfl
      | _ => cases v <;> rfl
    | _ =>
      cases hw with
      | plain hplain => cases w <;> rfl
      | _ => rfl

/-- Native functions look at numbers only. -/
theorem answer_pairs {vs vs' : List Value} (h : List.Forall₂ (Value.Pairs π) vs vs')
    (f : Native) : f.answer vs' = f.answer vs := by
  cases f with
  | div =>
    cases h with
    | nil => rfl
    | @cons v v' vs vs' hv hvs =>
      cases hvs with
      | nil => cases hv <;> rfl
      | cons _ _ => cases v <;> cases v' <;> rfl
  | _ => rfl

end Evaluation

end Lox
