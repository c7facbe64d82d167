import Lox.Proofs.Bindings
import Lox.Proofs.Run.Endings

/-!
Values refer to frames through the closures of functions, of the methods of classes, and of the
methods of the classes of objects, and through nothing else. Renaming the frames goes through
all of these. It shows in no answer of the language: not in what a value prints, nor in what it
is equal to, nor in how many arguments it takes.
-/

set_option autoImplicit false

namespace Lox

/-- Data that refers to frames: how they are renamed in it, and what it means that all of them
have a property. -/
class Referring (α : Type) where
  rename : (FrameId → FrameId) → α → α
  Within : (FrameId → Prop) → α → Prop
  rename_congr : ∀ {ρ ρ' : FrameId → FrameId} {P : FrameId → Prop} {a : α},
    Within P a → (∀ k, P k → ρ k = ρ' k) → rename ρ a = rename ρ' a
  within_imp : ∀ {P Q : FrameId → Prop} {a : α}, Within P a → (∀ k, P k → Q k) → Within Q a
  rename_rename : ∀ (ρ ρ' : FrameId → FrameId) (a : α),
    rename ρ' (rename ρ a) = rename (fun k ↦ ρ' (ρ k)) a
  rename_id : ∀ a : α, rename id a = a

namespace Referring

variable {α : Type} [Referring α]

instance : Referring Unit where
  rename _ u := u
  Within _ _ := True
  rename_congr _ _ := rfl
  within_imp _ _ := trivial
  rename_rename _ _ _ := rfl
  rename_id _ := rfl

instance : Referring Nat where
  rename _ n := n
  Within _ _ := True
  rename_congr _ _ := rfl
  within_imp _ _ := trivial
  rename_rename _ _ _ := rfl
  rename_id _ := rfl

instance : Referring Number where
  rename _ n := n
  Within _ _ := True
  rename_congr _ _ := rfl
  within_imp _ _ := trivial
  rename_rename _ _ _ := rfl
  rename_id _ := rfl

instance : Referring FrameId where
  rename ρ k := ρ k
  Within P k := P k
  rename_congr h hρ := hρ _ h
  within_imp h hPQ := hPQ _ h
  rename_rename _ _ _ := rfl
  rename_id _ := rfl

instance : Referring (List α) where
  rename ρ := List.map (rename ρ)
  Within P as := ∀ a ∈ as, Within P a
  rename_congr h hρ := List.map_congr_left fun a ha ↦ rename_congr (h a ha) hρ
  within_imp h hPQ := fun a ha ↦ within_imp (h a ha) hPQ
  rename_rename ρ ρ' as := by
    rw [List.map_map]
    exact List.map_congr_left fun a _ ↦ rename_rename ρ ρ' a
  rename_id as := by
    rw [funext rename_id]
    exact List.map_id' as

instance : Referring (Option α) where
  rename ρ := Option.map (rename ρ)
  Within P a? := ∀ a, a? = some a → Within P a
  rename_congr {_ _ _ a?} h hρ := by
    cases a? with
    | none => rfl
    | some a => exact congrArg some (rename_congr (h a rfl) hρ)
  within_imp h hPQ := fun a ha ↦ within_imp (h a ha) hPQ
  rename_rename ρ ρ' a? := by
    cases a? with
    | none => rfl
    | some a => exact congrArg some (rename_rename ρ ρ' a)
  rename_id a? := by
    rw [funext rename_id]
    exact Option.map_id'

instance : Referring (Bindings String α) where
  rename ρ := Bindings.map (rename ρ)
  Within P := Bindings.All (Within P)
  rename_congr h hρ := Bindings.map_congr fun e he ↦ rename_congr (h e he) hρ
  within_imp h hPQ := h.imp fun _ hv ↦ within_imp hv hPQ
  rename_rename ρ ρ' b := by
    rw [Bindings.map_map]
    exact Bindings.map_congr fun e _ ↦ rename_rename ρ ρ' e.2
  rename_id b := by
    rw [funext rename_id]
    exact Bindings.map_id' b

end Referring

open Referring

/-! ### Functions, classes and objects -/

def Function.rename (ρ : FrameId → FrameId) (f : Function) : Function :=
  { f with closure := ρ f.closure }

instance : Referring Function where
  rename := Function.rename
  Within P f := P f.closure
  rename_congr h hρ := by unfold Function.rename; rw [hρ _ h]
  within_imp h hPQ := hPQ _ h
  rename_rename _ _ _ := rfl
  rename_id _ := rfl

def ClassLayer.rename (ρ : FrameId → FrameId) (l : ClassLayer) : ClassLayer :=
  { l with methods := Referring.rename ρ l.methods }

instance : Referring ClassLayer where
  rename := ClassLayer.rename
  Within P l := Within P l.methods
  rename_congr h hρ := by unfold ClassLayer.rename; rw [rename_congr h hρ]
  within_imp h hPQ := within_imp (α := Bindings String Function) h hPQ
  rename_rename ρ ρ' l := by simp only [ClassLayer.rename, rename_rename]
  rename_id l := by simp only [ClassLayer.rename, rename_id]

def Class.rename (ρ : FrameId → FrameId) (c : Class) : Class :=
  ⟨Referring.rename ρ c.own, Referring.rename ρ c.ancestors⟩

instance : Referring Class where
  rename := Class.rename
  Within P c := Within P c.layers
  rename_congr h hρ := by
    unfold Class.rename
    rw [rename_congr (h _ (List.mem_cons_self ..)) hρ,
      rename_congr (fun l hl ↦ h l (List.mem_cons_of_mem _ hl)) hρ]
  within_imp h hPQ := within_imp (α := List ClassLayer) h hPQ
  rename_rename ρ ρ' c := by simp only [Class.rename, rename_rename]
  rename_id c := by simp only [Class.rename, rename_id]

def Object.rename (ρ : FrameId → FrameId) (o : Object) : Object :=
  { o with class_ := Referring.rename ρ o.class_ }

instance : Referring Object where
  rename := Object.rename
  Within P o := Within P o.class_
  rename_congr h hρ := by unfold Object.rename; rw [rename_congr h hρ]
  within_imp h hPQ := within_imp (α := Class) h hPQ
  rename_rename ρ ρ' o := by simp only [Object.rename, rename_rename]
  rename_id o := by simp only [Object.rename, rename_id]

/-! ### Values -/

def Value.rename (ρ : FrameId → FrameId) : Value → Value
  | .function id f => .function id (Referring.rename ρ f)
  | .class_ c => .class_ (Referring.rename ρ c)
  | .object o => .object (Referring.rename ρ o)
  | v => v

/-- All frames that the value refers to have the property. -/
def Value.Within (P : FrameId → Prop) : Value → Prop
  | .function _ f => Referring.Within P f
  | .class_ c => Referring.Within P c
  | .object o => Referring.Within P o
  | _ => True

instance : Referring Value where
  rename := Value.rename
  Within := Value.Within
  rename_congr {_ _ _ v} h hρ := by
    cases v with
    | function id f => exact congrArg (Value.function id) (rename_congr h hρ)
    | class_ c => exact congrArg Value.class_ (rename_congr h hρ)
    | object o => exact congrArg Value.object (rename_congr h hρ)
    | _ => rfl
  within_imp {_ _ v} h hPQ := by
    cases v with
    | function id f => exact within_imp (α := Function) h hPQ
    | class_ c => exact within_imp (α := Class) h hPQ
    | object o => exact within_imp (α := Object) h hPQ
    | _ => trivial
  rename_rename ρ ρ' v := by cases v <;> simp only [Value.rename, rename_rename]
  rename_id v := by cases v <;> simp only [Value.rename, rename_id]

theorem Value.Plain.within {v : Value} (h : v.Plain) {P : FrameId → Prop} :
    Referring.Within P v := by
  cases v <;> first | exact h.elim | trivial

theorem Value.Plain.rename_eq {v : Value} (h : v.Plain) (ρ : FrameId → FrameId) :
    Referring.rename ρ v = v := by
  cases v <;> first | exact h.elim | rfl

def Flow.rename (ρ : FrameId → FrameId) : Flow → Flow
  | .normal => .normal
  | .returned v => .returned (Referring.rename ρ v)

def Flow.Within (P : FrameId → Prop) : Flow → Prop
  | .normal => True
  | .returned v => Referring.Within P v

instance : Referring Flow where
  rename := Flow.rename
  Within := Flow.Within
  rename_congr {_ _ _ flow} h hρ := by
    cases flow with
    | normal => rfl
    | returned v => exact congrArg Flow.returned (rename_congr h hρ)
  within_imp {_ _ flow} h hPQ := by
    cases flow with
    | normal => trivial
    | returned v => exact within_imp (α := Value) h hPQ
  rename_rename ρ ρ' flow := by cases flow <;> simp only [Flow.rename, rename_rename]
  rename_id flow := by cases flow <;> simp only [Flow.rename, rename_id]

def Target.rename (ρ : FrameId → FrameId) : Target → Target
  | .value v => .value (Referring.rename ρ v)
  | .method f o => .method (Referring.rename ρ f) (Referring.rename ρ o)

def Target.Within (P : FrameId → Prop) : Target → Prop
  | .value v => Referring.Within P v
  | .method f o => Referring.Within P f ∧ Referring.Within P o

instance : Referring Target where
  rename := Target.rename
  Within := Target.Within
  rename_congr {_ _ _ t} h hρ := by
    cases t with
    | value v => exact congrArg Target.value (rename_congr h hρ)
    | method f o => simp only [Target.rename, rename_congr h.1 hρ, rename_congr h.2 hρ]
  within_imp {_ _ t} h hPQ := by
    cases t with
    | value v => exact within_imp (α := Value) h hPQ
    | method f o => exact ⟨within_imp (α := Function) h.1 hPQ, within_imp (α := Object) h.2 hPQ⟩
  rename_rename ρ ρ' t := by cases t <;> simp only [Target.rename, rename_rename]
  rename_id t := by cases t <;> simp only [Target.rename, rename_id]

/-! ### What renaming does not change -/

variable (ρ : FrameId → FrameId)

namespace Value

@[simp] theorem truthy_rename (v : Value) : (Referring.rename ρ v).truthy = v.truthy := by
  cases v <;> rfl

@[simp] theorem text_rename (v : Value) : (Referring.rename ρ v).text = v.text := by
  cases v <;> rfl

@[simp] theorem same_rename (v w : Value) :
    (Referring.rename ρ v).same (Referring.rename ρ w) = v.same w := by
  cases v <;> cases w <;> rfl

end Value

theorem Class.method?_rename (c : Class) (name : String) :
    (Referring.rename ρ c).method? name = (c.method? name).map (Function.rename ρ) := by
  have hlayers : (Referring.rename ρ c).layers = c.layers.map (ClassLayer.rename ρ) := rfl
  unfold method?
  rw [hlayers]
  induction c.layers with
  | nil => rfl
  | cons l ls ih =>
    have hfind : (l.rename ρ).methods.find? name =
        (l.methods.find? name).map (Function.rename ρ) := Bindings.find?_map _ _ _
    rw [List.map_cons, List.findSome?_cons, List.findSome?_cons, hfind]
    cases l.methods.find? name with
    | none => exact ih
    | some f => rfl

@[simp] theorem Class.arity_rename (c : Class) : (Referring.rename ρ c).arity = c.arity := by
  unfold arity
  rw [method?_rename]
  cases c.method? initializerName <;> rfl

@[simp] theorem Value.arity?_rename (v : Value) : (Referring.rename ρ v).arity? = v.arity? := by
  cases v with
  | class_ c => exact congrArg some (Class.arity_rename ρ c)
  | _ => rfl

/-- The methods of a class refer to frames that the class refers to. -/
theorem Class.within_method? {P : FrameId → Prop} {c : Class} {name : String} {f : Function}
    (h : Referring.Within P c) (hf : c.method? name = some f) : Referring.Within P f := by
  obtain ⟨l, hl, hfind⟩ := List.exists_of_findSome?_eq_some hf
  exact Bindings.All.find? (h l hl) hfind

theorem methodTable_rename (methods : List Routine) (env : FrameId) :
    Evaluation.methodTable methods (ρ env) =
      Referring.rename ρ (Evaluation.methodTable methods env) := by
  unfold Evaluation.methodTable
  refine Eq.trans ?_ (Bindings.map_ofList _ _).symm
  rw [List.map_map]
  rfl

theorem within_methodTable {P : FrameId → Prop} (methods : List Routine) {env : FrameId}
    (h : P env) : Referring.Within P (Evaluation.methodTable methods env) := by
  refine Bindings.all_ofList fun e he ↦ ?_
  obtain ⟨r, -, rfl⟩ := List.mem_map.1 he
  exact h

end Lox
