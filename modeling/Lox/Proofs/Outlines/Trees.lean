import Lox.Proofs.Scope.Setting
import Mathlib.Data.List.Nodup

/-!
Outlines of trees: what is left of them without their lines, with their identities changed by a
function. Trees are bare alike if only lines and identities tell them apart. Such trees have the
same outline wherever the identities that stand in the same places of them are changed into the
same (`Stmt.outlineAll_eq`), so in particular if each identity is changed into its place.
-/

set_option autoImplicit false

namespace Lox

def Name.outline (n : Name) : Name := ⟨n.text, 0⟩

mutual

/-- The expression without lines, with its identities changed. -/
def Expr.outline (ρ : NodeId → NodeId) : Expr → Expr
  | .literal value => .literal value
  | .grouping e => .grouping (e.outline ρ)
  | .unary op _ e => .unary op 0 (e.outline ρ)
  | .binary op _ l r => .binary op 0 (l.outline ρ) (r.outline ρ)
  | .logical op _ l r => .logical op 0 (l.outline ρ) (r.outline ρ)
  | .var id name => .var (ρ id) name.outline
  | .assign id name e => .assign (ρ id) name.outline (e.outline ρ)
  | .call callee _ args => .call (callee.outline ρ) 0 (Expr.outlineAll ρ args)
  | .get e name => .get (e.outline ρ) name.outline
  | .set o name e => .set (o.outline ρ) name.outline (e.outline ρ)
  | .this id _ => .this (ρ id) 0
  | .super id _ method => .super (ρ id) 0 method.outline

def Expr.outlineAll (ρ : NodeId → NodeId) : List Expr → List Expr
  | [] => []
  | e :: es => e.outline ρ :: Expr.outlineAll ρ es

end

def Superclass.outline (ρ : NodeId → NodeId) (s : Superclass) : Superclass :=
  ⟨ρ s.id, s.name.outline⟩

mutual

/-- The statement without lines, with its identities changed. -/
def Stmt.outline (ρ : NodeId → NodeId) : Stmt → Stmt
  | .expression e => .expression (e.outline ρ)
  | .print e => .print (e.outline ρ)
  | .var name initial => .var name.outline (initial.map (Expr.outline ρ))
  | .block body => .block (Stmt.outlineAll ρ body)
  | .ifThen test s => .ifThen (test.outline ρ) (s.outline ρ)
  | .ifElse test s t => .ifElse (test.outline ρ) (s.outline ρ) (t.outline ρ)
  | .loop test s => .loop (test.outline ρ) (s.outline ρ)
  | .function r => .function (r.outline ρ)
  | .return_ _ value => .return_ 0 (value.map (Expr.outline ρ))
  | .class_ name superclass methods =>
    .class_ name.outline (superclass.map (Superclass.outline ρ)) (Routine.outlineAll ρ methods)

def Stmt.outlineAll (ρ : NodeId → NodeId) : List Stmt → List Stmt
  | [] => []
  | s :: ss => s.outline ρ :: Stmt.outlineAll ρ ss

def Routine.outline (ρ : NodeId → NodeId) : Routine → Routine
  | ⟨name, names, body⟩ => ⟨name.outline, names.map Name.outline, Stmt.outlineAll ρ body⟩

def Routine.outlineAll (ρ : NodeId → NodeId) : List Routine → List Routine
  | [] => []
  | r :: rs => r.outline ρ :: Routine.outlineAll ρ rs

end

/-- Changes every identity into zero. -/
def erased : NodeId → NodeId := fun _ ↦ 0

/-! ### Identities in an outline -/

section

variable (ρ : NodeId → NodeId)

mutual

theorem Expr.ids_outline : (e : Expr) → (e.outline ρ).ids = e.ids.map ρ
  | .literal _ => rfl
  | .grouping e | .unary _ _ e | .get e _ => Expr.ids_outline e
  | .binary _ _ l r | .logical _ _ l r => by
    simp [Expr.outline, Expr.ids, Expr.ids_outline l, Expr.ids_outline r]
  | .var _ _ | .this _ _ | .super _ _ _ => rfl
  | .assign _ _ e => by simp [Expr.outline, Expr.ids, Expr.ids_outline e]
  | .call callee _ args => by
    simp [Expr.outline, Expr.ids, Expr.ids_outline callee, Expr.idsAll_outline args]
  | .set o _ e => by simp [Expr.outline, Expr.ids, Expr.ids_outline o, Expr.ids_outline e]

theorem Expr.idsAll_outline : (es : List Expr) →
    Expr.idsAll (Expr.outlineAll ρ es) = (Expr.idsAll es).map ρ
  | [] => rfl
  | e :: es => by
    simp [Expr.outlineAll, Expr.idsAll, Expr.ids_outline e, Expr.idsAll_outline es]

end

theorem Expr.idsOf_outline (e : Option Expr) :
    Expr.idsOf (e.map (Expr.outline ρ)) = (Expr.idsOf e).map ρ := by
  cases e with
  | none => rfl
  | some e => exact Expr.ids_outline ρ e

theorem Superclass.idsOf_outline (s : Option Superclass) :
    Superclass.idsOf (s.map (Superclass.outline ρ)) = (Superclass.idsOf s).map ρ := by
  cases s <;> rfl

mutual

theorem Stmt.ids_outline : (s : Stmt) → (s.outline ρ).ids = s.ids.map ρ
  | .expression e | .print e => Expr.ids_outline ρ e
  | .var _ e | .return_ _ e => Expr.idsOf_outline ρ e
  | .block body => Stmt.idsAll_outline body
  | .ifThen test s | .loop test s => by
    simp [Stmt.outline, Stmt.ids, Expr.ids_outline, Stmt.ids_outline s]
  | .ifElse test s t => by
    simp [Stmt.outline, Stmt.ids, Expr.ids_outline, Stmt.ids_outline s, Stmt.ids_outline t]
  | .function r => Routine.ids_outline r
  | .class_ _ s rs => by
    simp [Stmt.outline, Stmt.ids, Superclass.idsOf_outline, Routine.idsAll_outline rs]

theorem Stmt.idsAll_outline : (ss : List Stmt) →
    Stmt.idsAll (Stmt.outlineAll ρ ss) = (Stmt.idsAll ss).map ρ
  | [] => rfl
  | s :: ss => by
    simp [Stmt.outlineAll, Stmt.idsAll, Stmt.ids_outline s, Stmt.idsAll_outline ss]

theorem Routine.ids_outline : (r : Routine) → (r.outline ρ).ids = r.ids.map ρ
  | ⟨_, _, body⟩ => Stmt.idsAll_outline body

theorem Routine.idsAll_outline : (rs : List Routine) →
    Routine.idsAll (Routine.outlineAll ρ rs) = (Routine.idsAll rs).map ρ
  | [] => rfl
  | r :: rs => by
    simp [Routine.outlineAll, Routine.idsAll, Routine.ids_outline r, Routine.idsAll_outline rs]

end

end

/-! ### Trees that are bare alike -/

section

variable {ρ ρ' : NodeId → NodeId}

/-- The first parts of two trees that are alike have as many identities. -/
theorem split_ids {ids ids' rest rest' : List NodeId}
    (hsame : ids.map erased = ids'.map erased)
    (h : (ids ++ rest).map ρ = (ids' ++ rest').map ρ') :
    ids.map ρ = ids'.map ρ' ∧ rest.map ρ = rest'.map ρ' := by
  have hlength := congrArg List.length hsame
  rw [List.length_map, List.length_map] at hlength
  rw [List.map_append, List.map_append] at h
  exact List.append_inj h (by rw [List.length_map, List.length_map, hlength])

theorem Expr.ids_erased {e e' : Expr} (h : e.outline erased = e'.outline erased) :
    e.ids.map erased = e'.ids.map erased := by
  rw [← Expr.ids_outline, ← Expr.ids_outline, h]

mutual

theorem Expr.outline_eq : (e e' : Expr) → e.outline erased = e'.outline erased →
    e.ids.map ρ = e'.ids.map ρ' → e.outline ρ = e'.outline ρ'
  | .literal _, e', h, _ => by
    cases e' with
    | literal _ => exact h
    | _ => cases h
  | .grouping e, e', h, hids => by
    cases e' with
    | grouping e' => exact congrArg _ (Expr.outline_eq e e' (Expr.grouping.inj h) hids)
    | _ => cases h
  | .unary op line e, e', h, hids => by
    cases e' with
    | unary op' line' e' =>
      obtain ⟨rfl, -, he⟩ := Expr.unary.inj h
      exact congrArg _ (Expr.outline_eq e e' he hids)
    | _ => cases h
  | .binary op line l r, e', h, hids => by
    cases e' with
    | binary op' line' l' r' =>
      obtain ⟨rfl, -, hl, hr⟩ := Expr.binary.inj h
      obtain ⟨hids, hrest⟩ := split_ids (Expr.ids_erased hl) hids
      exact congrArg₂ (Expr.binary op 0) (Expr.outline_eq l l' hl hids)
        (Expr.outline_eq r r' hr hrest)
    | _ => cases h
  | .logical op line l r, e', h, hids => by
    cases e' with
    | logical op' line' l' r' =>
      obtain ⟨rfl, -, hl, hr⟩ := Expr.logical.inj h
      obtain ⟨hids, hrest⟩ := split_ids (Expr.ids_erased hl) hids
      exact congrArg₂ (Expr.logical op 0) (Expr.outline_eq l l' hl hids)
        (Expr.outline_eq r r' hr hrest)
    | _ => cases h
  | .var id name, e', h, hids => by
    cases e' with
    | var id' name' =>
      exact congrArg₂ Expr.var (List.cons.inj hids).1 (Expr.var.inj h).2
    | _ => cases h
  | .assign id name e, e', h, hids => by
    cases e' with
    | assign id' name' e' =>
      obtain ⟨-, hname, he⟩ := Expr.assign.inj h
      obtain ⟨hids, hrest⟩ := split_ids (Expr.ids_erased he) hids
      simp only [Expr.outline, hname, Expr.outline_eq e e' he hids, (List.cons.inj hrest).1]
    | _ => cases h
  | .call callee line args, e', h, hids => by
    cases e' with
    | call callee' line' args' =>
      obtain ⟨hcallee, -, hargs⟩ := Expr.call.inj h
      obtain ⟨hids, hrest⟩ := split_ids (Expr.ids_erased hcallee) hids
      simp only [Expr.outline, Expr.outline_eq callee callee' hcallee hids,
        Expr.outlineAll_eq args args' hargs hrest]
    | _ => cases h
  | .get e name, e', h, hids => by
    cases e' with
    | get e' name' =>
      obtain ⟨he, hname⟩ := Expr.get.inj h
      exact congrArg₂ Expr.get (Expr.outline_eq e e' he hids) hname
    | _ => cases h
  | .set o name e, e', h, hids => by
    cases e' with
    | set o' name' e' =>
      obtain ⟨ho, hname, he⟩ := Expr.set.inj h
      obtain ⟨hids, hrest⟩ := split_ids (Expr.ids_erased he) hids
      simp only [Expr.outline, hname, Expr.outline_eq e e' he hids,
        Expr.outline_eq o o' ho hrest]
    | _ => cases h
  | .this id line, e', h, hids => by
    cases e' with
    | this id' line' => exact congrArg (Expr.this · 0) (List.cons.inj hids).1
    | _ => cases h
  | .super id line method, e', h, hids => by
    cases e' with
    | super id' line' method' =>
      exact congrArg₂ (Expr.super · 0) (List.cons.inj hids).1 (Expr.super.inj h).2.2
    | _ => cases h

theorem Expr.outlineAll_eq : (es es' : List Expr) →
    Expr.outlineAll erased es = Expr.outlineAll erased es' →
    (Expr.idsAll es).map ρ = (Expr.idsAll es').map ρ' →
    Expr.outlineAll ρ es = Expr.outlineAll ρ' es'
  | [], [], _, _ => rfl
  | e :: es, e' :: es', h, hids => by
    obtain ⟨he, hes⟩ := List.cons.inj h
    obtain ⟨hids, hrest⟩ := split_ids (Expr.ids_erased he) hids
    exact congrArg₂ List.cons (Expr.outline_eq e e' he hids) (Expr.outlineAll_eq es es' hes hrest)

end

theorem Expr.outlineOf_eq {e e' : Option Expr}
    (h : e.map (Expr.outline erased) = e'.map (Expr.outline erased))
    (hids : (Expr.idsOf e).map ρ = (Expr.idsOf e').map ρ') :
    e.map (Expr.outline ρ) = e'.map (Expr.outline ρ') := by
  cases e <;> cases e' <;> first | cases h; done | skip
  · rfl
  · exact congrArg some (Expr.outline_eq _ _ (Option.some.inj h) hids)

theorem Superclass.outlineOf_eq {s s' : Option Superclass}
    (h : s.map (Superclass.outline erased) = s'.map (Superclass.outline erased))
    (hids : (Superclass.idsOf s).map ρ = (Superclass.idsOf s').map ρ') :
    s.map (Superclass.outline ρ) = s'.map (Superclass.outline ρ') := by
  cases s <;> cases s' <;> first | cases h; done | skip
  · rfl
  · have hname := (Superclass.mk.inj (Option.some.inj h)).2
    exact congrArg some (congrArg₂ Superclass.mk (List.cons.inj hids).1 hname)

theorem Stmt.ids_erased {s s' : Stmt} (h : s.outline erased = s'.outline erased) :
    s.ids.map erased = s'.ids.map erased := by
  rw [← Stmt.ids_outline, ← Stmt.ids_outline, h]

theorem Routine.ids_erased {r r' : Routine} (h : r.outline erased = r'.outline erased) :
    r.ids.map erased = r'.ids.map erased := by
  rw [← Routine.ids_outline, ← Routine.ids_outline, h]

mutual

theorem Stmt.outline_eq : (s s' : Stmt) → s.outline erased = s'.outline erased →
    s.ids.map ρ = s'.ids.map ρ' → s.outline ρ = s'.outline ρ'
  | .expression e, s', h, hids => by
    cases s' with
    | expression e' => exact congrArg _ (Expr.outline_eq e e' (Stmt.expression.inj h) hids)
    | _ => cases h
  | .print e, s', h, hids => by
    cases s' with
    | print e' => exact congrArg _ (Expr.outline_eq e e' (Stmt.print.inj h) hids)
    | _ => cases h
  | .var name e, s', h, hids => by
    cases s' with
    | var name' e' =>
      obtain ⟨hname, he⟩ := Stmt.var.inj h
      exact congrArg₂ Stmt.var hname (Expr.outlineOf_eq he hids)
    | _ => cases h
  | .block body, s', h, hids => by
    cases s' with
    | block body' => exact congrArg _ (Stmt.outlineAll_eq body body' (Stmt.block.inj h) hids)
    | _ => cases h
  | .ifThen test s, s', h, hids => by
    cases s' with
    | ifThen test' s' =>
      obtain ⟨htest, hs⟩ := Stmt.ifThen.inj h
      obtain ⟨hids, hrest⟩ := split_ids (Expr.ids_erased htest) hids
      exact congrArg₂ Stmt.ifThen (Expr.outline_eq test test' htest hids)
        (Stmt.outline_eq s s' hs hrest)
    | _ => cases h
  | .ifElse test s t, s', h, hids => by
    cases s' with
    | ifElse test' s' t' =>
      obtain ⟨htest, hs, ht⟩ := Stmt.ifElse.inj h
      obtain ⟨hids, hrest⟩ := split_ids (Expr.ids_erased htest) hids
      obtain ⟨hids', hrest⟩ := split_ids (Stmt.ids_erased hs) hrest
      simp only [Stmt.outline, Expr.outline_eq test test' htest hids,
        Stmt.outline_eq s s' hs hids', Stmt.outline_eq t t' ht hrest]
    | _ => cases h
  | .loop test s, s', h, hids => by
    cases s' with
    | loop test' s' =>
      obtain ⟨htest, hs⟩ := Stmt.loop.inj h
      obtain ⟨hids, hrest⟩ := split_ids (Expr.ids_erased htest) hids
      exact congrArg₂ Stmt.loop (Expr.outline_eq test test' htest hids)
        (Stmt.outline_eq s s' hs hrest)
    | _ => cases h
  | .function r, s', h, hids => by
    cases s' with
    | function r' => exact congrArg _ (Routine.outline_eq r r' (Stmt.function.inj h) hids)
    | _ => cases h
  | .return_ line e, s', h, hids => by
    cases s' with
    | return_ line' e' =>
      exact congrArg _ (Expr.outlineOf_eq (Stmt.return_.inj h).2 hids)
    | _ => cases h
  | .class_ name s rs, s', h, hids => by
    cases s' with
    | class_ name' s' rs' =>
      obtain ⟨hname, hs, hrs⟩ := Stmt.class_.inj h
      have hsame : (Superclass.idsOf s).map erased = (Superclass.idsOf s').map erased := by
        rw [← Superclass.idsOf_outline, ← Superclass.idsOf_outline, hs]
      obtain ⟨hids, hrest⟩ := split_ids hsame hids
      simp only [Stmt.outline, hname, Superclass.outlineOf_eq hs hids,
        Routine.outlineAll_eq rs rs' hrs hrest]
    | _ => cases h

theorem Stmt.outlineAll_eq : (ss ss' : List Stmt) →
    Stmt.outlineAll erased ss = Stmt.outlineAll erased ss' →
    (Stmt.idsAll ss).map ρ = (Stmt.idsAll ss').map ρ' →
    Stmt.outlineAll ρ ss = Stmt.outlineAll ρ' ss'
  | [], [], _, _ => rfl
  | s :: ss, s' :: ss', h, hids => by
    obtain ⟨hs, hss⟩ := List.cons.inj h
    obtain ⟨hids, hrest⟩ := split_ids (Stmt.ids_erased hs) hids
    exact congrArg₂ List.cons (Stmt.outline_eq s s' hs hids) (Stmt.outlineAll_eq ss ss' hss hrest)

theorem Routine.outline_eq : (r r' : Routine) → r.outline erased = r'.outline erased →
    r.ids.map ρ = r'.ids.map ρ' → r.outline ρ = r'.outline ρ'
  | ⟨name, names, body⟩, ⟨name', names', body'⟩, h, hids => by
    obtain ⟨hname, hnames, hbody⟩ := Routine.mk.inj h
    simp only [Routine.outline, hname, hnames, Stmt.outlineAll_eq body body' hbody hids]

theorem Routine.outlineAll_eq : (rs rs' : List Routine) →
    Routine.outlineAll erased rs = Routine.outlineAll erased rs' →
    (Routine.idsAll rs).map ρ = (Routine.idsAll rs').map ρ' →
    Routine.outlineAll ρ rs = Routine.outlineAll ρ' rs'
  | [], [], _, _ => rfl
  | r :: rs, r' :: rs', h, hids => by
    obtain ⟨hr, hrs⟩ := List.cons.inj h
    obtain ⟨hids, hrest⟩ := split_ids (Routine.ids_erased hr) hids
    exact congrArg₂ List.cons (Routine.outline_eq r r' hr hids)
      (Routine.outlineAll_eq rs rs' hrs hrest)

end

end

/-! ### Places of identities -/

/-- Where an identity stands in a list; those that do not stand in it come after all that do. -/
def placeIn (ids : List NodeId) (id : NodeId) : NodeId :=
  if id ∈ ids then ids.idxOf id else ids.length + id

theorem placeIn_injective (ids : List NodeId) : Function.Injective (placeIn ids) := by
  intro a b h
  unfold placeIn at h
  split at h <;> split at h
  next ha hb => exact (List.idxOf_inj ha).1 h
  next ha _ =>
    exact absurd (h ▸ List.idxOf_lt_length_of_mem ha) (Nat.not_lt.2 (Nat.le_add_right ..))
  next _ hb =>
    exact absurd (h ▸ List.idxOf_lt_length_of_mem hb) (Nat.not_lt.2 (Nat.le_add_right ..))
  next => exact Nat.add_left_cancel h

theorem map_placeIn {ids : List NodeId} (h : ids.Nodup) :
    ids.map (placeIn ids) = List.range ids.length := by
  refine List.ext_getElem (by simp) fun i hi hi' ↦ ?_
  rw [List.length_map] at hi
  rw [List.getElem_map, List.getElem_range, placeIn, if_pos (List.getElem_mem hi),
    h.idxOf_getElem i hi]

/-- Trees that are bare alike, and use each identity once, have the same outline if identities are
changed into their places. -/
theorem Stmt.outlineAll_placeIn {ss ss' : List Stmt}
    (h : Stmt.outlineAll erased ss = Stmt.outlineAll erased ss')
    (hnodup : (Stmt.idsAll ss).Nodup) (hnodup' : (Stmt.idsAll ss').Nodup) :
    Stmt.outlineAll (placeIn (Stmt.idsAll ss)) ss =
      Stmt.outlineAll (placeIn (Stmt.idsAll ss')) ss' := by
  have hlength := congrArg (fun ss ↦ (Stmt.idsAll ss).length) h
  simp only [Stmt.idsAll_outline, List.length_map] at hlength
  refine Stmt.outlineAll_eq ss ss' h ?_
  rw [map_placeIn hnodup, map_placeIn hnodup', hlength]

end Lox
