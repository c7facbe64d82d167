import Lox.Machine

/-!
Where the nodes of a program stand. The setting of a node is the list of the scopes that are open
around it, from the innermost outwards and the global one apart; each scope is known by what its
frame is made for, and comes with the names that have been declared in it so far. `Part` says how
the setting changes from a piece of code to its parts, and `Under` puts such steps together. In
this sense every node of a program stands under its statements in the empty setting.
-/

set_option autoImplicit false

namespace Lox

/-! ### Names that are declared -/

/-- The names that a statement declares in the scope it stands in. -/
def Stmt.declared : Stmt → List String
  | .var name _ => [name.text]
  | .function r => [r.name.text]
  | .class_ name _ _ => [name.text]
  | _ => []

def declaredNames (ss : List Stmt) : List String := ss.flatMap Stmt.declared

def Routine.parameterNames (r : Routine) : List String := r.parameters.map Name.text

/-- All the names that are declared anywhere in a scope. -/
def Origin.declares : Origin → List String
  | .program => []
  | .block body => declaredNames body
  | .call r => r.parameterNames ++ declaredNames r.body
  | .receiver _ => ["this"]
  | .extension _ _ => ["super"]

/-! ### Settings -/

/-- An open scope: what its frame is made for, the names whose declarations in it are complete,
and the variable whose initial value is just being given, if there is one. -/
structure OpenScope where
  origin : Origin
  complete : List String
  awaited : Option String

/-- Whether the scope has the name so far, be it one whose value is still awaited. -/
def OpenScope.declares (s : OpenScope) (x : String) : Bool :=
  decide (s.awaited = some x) || decide (x ∈ s.complete)

abbrev Setting := List OpenScope

namespace Setting

/-- The setting with more declarations complete in the innermost scope. -/
def completing (names : List String) : Setting → Setting
  | [] => []
  | s :: outer => { s with complete := names ++ s.complete } :: outer

/-- The setting of the initial value of a variable. -/
def awaiting (x : String) : Setting → Setting
  | [] => []
  | s :: outer => { s with awaited := some x } :: outer

/-- How far out the innermost scope is that has the name. -/
def distance? (Δ : Setting) (x : String) : Option Nat := Δ.findIdx? fun s ↦ s.declares x

/-- Whether the code belongs to a function or a method. -/
def InRoutine (Δ : Setting) : Prop := ∃ s ∈ Δ, ∃ r, s.origin = .call r

end Setting

def OpenScope.block (body : List Stmt) : OpenScope := ⟨.block body, [], none⟩

def OpenScope.call (r : Routine) : OpenScope := ⟨.call r, r.parameterNames, none⟩

def OpenScope.receiver (r : Routine) : OpenScope := ⟨.receiver r, ["this"], none⟩

/-- The scope around the methods of a class that extends another one. -/
def OpenScope.extension (name : Name) (methods : List Routine) : Option Superclass → Setting
  | none => []
  | some _ => [⟨.extension name methods, ["super"], none⟩]

/-! ### Code and its parts -/

inductive Code
  | stmts (ss : List Stmt)
  | stmt (s : Stmt)
  | routine (r : Routine)
  | expr (e : Expr)
  | use (id : NodeId) (name : String)

/-- The parts of a piece of code, in the order in which they stand, each with its setting. What a
name is used for stands under the node that uses it. -/
inductive Part : Setting → Code → Setting → Code → Prop
  | head {Δ s ss} : Part Δ (.stmts (s :: ss)) Δ (.stmt s)
  | tail {Δ s ss} : Part Δ (.stmts (s :: ss)) (Δ.completing s.declared) (.stmts ss)
  | expression {Δ e} : Part Δ (.stmt (.expression e)) Δ (.expr e)
  | print {Δ e} : Part Δ (.stmt (.print e)) Δ (.expr e)
  | initial {Δ name e} :
    Part Δ (.stmt (.var name (some e))) (Δ.awaiting name.text) (.expr e)
  | block {Δ body} : Part Δ (.stmt (.block body)) (.block body :: Δ) (.stmts body)
  | ifTest {Δ test s} : Part Δ (.stmt (.ifThen test s)) Δ (.expr test)
  | ifConsequent {Δ test s} : Part Δ (.stmt (.ifThen test s)) Δ (.stmt s)
  | elseTest {Δ test s t} : Part Δ (.stmt (.ifElse test s t)) Δ (.expr test)
  | elseConsequent {Δ test s t} : Part Δ (.stmt (.ifElse test s t)) Δ (.stmt s)
  | elseAlternative {Δ test s t} : Part Δ (.stmt (.ifElse test s t)) Δ (.stmt t)
  | loopTest {Δ test s} : Part Δ (.stmt (.loop test s)) Δ (.expr test)
  | loopBody {Δ test s} : Part Δ (.stmt (.loop test s)) Δ (.stmt s)
  | function {Δ r} : Part Δ (.stmt (.function r)) (Δ.completing [r.name.text]) (.routine r)
  | body {Δ r} : Part Δ (.routine r) (.call r :: Δ) (.stmts r.body)
  | returned {Δ line e} : Part Δ (.stmt (.return_ line (some e))) Δ (.expr e)
  | superclass {Δ name s methods} :
    Part Δ (.stmt (.class_ name (some s) methods)) Δ (.use s.id s.name.text)
  | method {Δ name superclass methods r} (mem : r ∈ methods) :
    Part Δ (.stmt (.class_ name superclass methods))
      (.receiver r :: (OpenScope.extension name methods superclass ++ Δ.completing [name.text]))
      (.routine r)
  | grouping {Δ e} : Part Δ (.expr (.grouping e)) Δ (.expr e)
  | operand {Δ op line e} : Part Δ (.expr (.unary op line e)) Δ (.expr e)
  | binaryLeft {Δ op line l r} : Part Δ (.expr (.binary op line l r)) Δ (.expr l)
  | binaryRight {Δ op line l r} : Part Δ (.expr (.binary op line l r)) Δ (.expr r)
  | logicalLeft {Δ op line l r} : Part Δ (.expr (.logical op line l r)) Δ (.expr l)
  | logicalRight {Δ op line l r} : Part Δ (.expr (.logical op line l r)) Δ (.expr r)
  | var {Δ id name} : Part Δ (.expr (.var id name)) Δ (.use id name.text)
  | value {Δ id name e} : Part Δ (.expr (.assign id name e)) Δ (.expr e)
  | assigned {Δ id name e} : Part Δ (.expr (.assign id name e)) Δ (.use id name.text)
  | callee {Δ callee line args} : Part Δ (.expr (.call callee line args)) Δ (.expr callee)
  | argument {Δ callee line args e} (mem : e ∈ args) :
    Part Δ (.expr (.call callee line args)) Δ (.expr e)
  | object {Δ e name} : Part Δ (.expr (.get e name)) Δ (.expr e)
  | setObject {Δ o name e} : Part Δ (.expr (.set o name e)) Δ (.expr o)
  | setValue {Δ o name e} : Part Δ (.expr (.set o name e)) Δ (.expr e)
  | this {Δ id line} : Part Δ (.expr (.this id line)) Δ (.use id "this")
  | super {Δ id line method} : Part Δ (.expr (.super id line method)) Δ (.use id "super")

/-- Code somewhere within other code, each in its setting. -/
inductive Under : Setting → Code → Setting → Code → Prop
  | refl {Δ c} : Under Δ c Δ c
  | step {Δ c Δ₁ c₁ Δ₂ c₂} (part : Part Δ c Δ₁ c₁) (rest : Under Δ₁ c₁ Δ₂ c₂) : Under Δ c Δ₂ c₂

/-- A node of a program, in its setting. -/
def Site (ss : List Stmt) (Δ : Setting) (c : Code) : Prop := Under [] (.stmts ss) Δ c

theorem Under.trans {Δ Δ₁ Δ₂ : Setting} {c c₁ c₂ : Code} (h : Under Δ c Δ₁ c₁)
    (h' : Under Δ₁ c₁ Δ₂ c₂) : Under Δ c Δ₂ c₂ := by
  induction h with
  | refl => exact h'
  | step first _ ih => exact .step first (ih h')

/-- What holds of code with its setting and goes over to parts holds of all that is under it. -/
theorem Under.induct {P : Setting → Code → Prop} {Δ Δ' : Setting} {c c' : Code}
    (h : Under Δ c Δ' c') (base : P Δ c)
    (step : ∀ Δ₁ c₁ Δ₂ c₂, P Δ₁ c₁ → Part Δ₁ c₁ Δ₂ c₂ → P Δ₂ c₂) : P Δ' c' := by
  induction h with
  | refl => exact base
  | step first _ ih => exact ih (step _ _ _ _ base first)

/-! ### Code as it is read -/

/-- Words that are no names of variables, though frames hold values for them. -/
def keywordNames : List String := ["this", "super"]

/-- What the grammar sees to, of a piece of code by itself: no name of a variable is such a word,
and no branch of a statement is a declaration. -/
def Code.Regular : Code → Prop
  | .stmt (.var name _) => name.text ∉ keywordNames
  | .stmt (.ifThen _ s) => s.declared = []
  | .stmt (.ifElse _ s t) => s.declared = [] ∧ t.declared = []
  | .stmt (.loop _ s) => s.declared = []
  | .stmt (.class_ name superclass _) =>
    name.text ∉ keywordNames ∧ ∀ s, superclass = some s → s.name.text ∉ keywordNames
  | .routine r => r.name.text ∉ keywordNames ∧ ∀ x ∈ r.parameterNames, x ∉ keywordNames
  | .expr (.var _ name) => name.text ∉ keywordNames
  | .expr (.assign _ name _) => name.text ∉ keywordNames
  | _ => True

/-- The code is regular throughout. -/
def WellRead (Δ : Setting) (c : Code) : Prop := ∀ Δ' c', Under Δ c Δ' c' → c'.Regular

theorem WellRead.here {Δ : Setting} {c : Code} (h : WellRead Δ c) : c.Regular := h Δ c .refl

theorem WellRead.part {Δ Δ₁ : Setting} {c c₁ : Code} (h : WellRead Δ c) (part : Part Δ c Δ₁ c₁) :
    WellRead Δ₁ c₁ :=
  fun Δ' c' hunder ↦ h Δ' c' (.step part hunder)

theorem wellRead_intro {Δ : Setting} {c : Code} (h : c.Regular)
    (hparts : ∀ Δ₁ c₁, Part Δ c Δ₁ c₁ → WellRead Δ₁ c₁) : WellRead Δ c := by
  intro Δ' c' hunder
  cases hunder with
  | refl => exact h
  | step first rest => exact hparts _ _ first Δ' c' rest

/-! ### Identities -/

mutual

/-- Identities of the uses of names in an expression, in the order of resolution. -/
def Expr.ids : Expr → List NodeId
  | .literal _ => []
  | .grouping e => e.ids
  | .unary _ _ e => e.ids
  | .binary _ _ l r => l.ids ++ r.ids
  | .logical _ _ l r => l.ids ++ r.ids
  | .var id _ => [id]
  | .assign id _ e => e.ids ++ [id]
  | .call callee _ args => callee.ids ++ Expr.idsAll args
  | .get e _ => e.ids
  | .set o _ e => e.ids ++ o.ids
  | .this id _ => [id]
  | .super id _ _ => [id]

def Expr.idsAll : List Expr → List NodeId
  | [] => []
  | e :: es => e.ids ++ Expr.idsAll es

end

def Expr.idsOf : Option Expr → List NodeId
  | none => []
  | some e => e.ids

def Superclass.idsOf : Option Superclass → List NodeId
  | none => []
  | some s => [s.id]

mutual

/-- Identities of the uses of names in a statement. -/
def Stmt.ids : Stmt → List NodeId
  | .expression e => e.ids
  | .print e => e.ids
  | .var _ initial => Expr.idsOf initial
  | .block body => Stmt.idsAll body
  | .ifThen test s => test.ids ++ s.ids
  | .ifElse test s t => test.ids ++ (s.ids ++ t.ids)
  | .loop test s => test.ids ++ s.ids
  | .function r => r.ids
  | .return_ _ value => Expr.idsOf value
  | .class_ _ superclass methods => Superclass.idsOf superclass ++ Routine.idsAll methods

def Stmt.idsAll : List Stmt → List NodeId
  | [] => []
  | s :: ss => s.ids ++ Stmt.idsAll ss

def Routine.ids : Routine → List NodeId
  | ⟨_, _, body⟩ => Stmt.idsAll body

def Routine.idsAll : List Routine → List NodeId
  | [] => []
  | r :: rs => r.ids ++ Routine.idsAll rs

end

def Code.ids : Code → List NodeId
  | .stmts ss => Stmt.idsAll ss
  | .stmt s => s.ids
  | .routine r => r.ids
  | .expr e => e.ids
  | .use id _ => [id]

theorem Expr.idsAll_eq_flatMap (es : List Expr) : Expr.idsAll es = es.flatMap Expr.ids := by
  induction es with
  | nil => rfl
  | cons e es ih => rw [Expr.idsAll, ih, List.flatMap_cons]

theorem Routine.idsAll_eq_flatMap (rs : List Routine) :
    Routine.idsAll rs = rs.flatMap Routine.ids := by
  induction rs with
  | nil => rfl
  | cons r rs ih => rw [Routine.idsAll, ih, List.flatMap_cons]

theorem Expr.ids_sublist {e : Expr} {es : List Expr} (he : e ∈ es) :
    e.ids.Sublist (Expr.idsAll es) := by
  rw [Expr.idsAll_eq_flatMap]
  exact List.sublist_flatten_of_mem (List.mem_map_of_mem he)

theorem Routine.ids_sublist {r : Routine} {rs : List Routine} (hr : r ∈ rs) :
    r.ids.Sublist (Routine.idsAll rs) := by
  rw [Routine.idsAll_eq_flatMap]
  exact List.sublist_flatten_of_mem (List.mem_map_of_mem hr)

/-- The identities of a part are some of those of the whole, in the same order. -/
theorem Part.ids_sublist {Δ Δ' : Setting} {c c' : Code} (h : Part Δ c Δ' c') :
    c'.ids.Sublist c.ids := by
  cases h with
  | @body r => cases r; exact List.Sublist.refl _
  | method mem => exact List.sublist_append_of_sublist_right (Routine.ids_sublist mem)
  | argument mem => exact List.sublist_append_of_sublist_right (Expr.ids_sublist mem)
  | elseConsequent => exact List.sublist_append_of_sublist_right (List.sublist_append_left _ _)
  | elseAlternative => exact List.sublist_append_of_sublist_right (List.sublist_append_right _ _)
  | superclass => exact List.sublist_append_left _ _
  | _ => simp [Code.ids, Stmt.ids, Stmt.idsAll, Expr.ids, Expr.idsOf]

theorem Under.ids_sublist {Δ Δ' : Setting} {c c' : Code} (h : Under Δ c Δ' c') :
    c'.ids.Sublist c.ids := by
  induction h with
  | refl => exact List.Sublist.refl _
  | step first _ ih => exact ih.trans first.ids_sublist

theorem Under.ids_subset {Δ Δ' : Setting} {c c' : Code} (h : Under Δ c Δ' c') {id : NodeId}
    (hid : id ∈ c'.ids) : id ∈ c.ids :=
  h.ids_sublist.subset hid

end Lox
