import Lox.Proofs.Grammar.Derivation
import Lox.Proofs.Scope.Setting
import Mathlib.Data.List.Perm.Subperm

/-!
Whatever a rule of the grammar can answer, seen as a tree: it has identities, it can be taken
without them, and it can be regular throughout. Trees are put together from parts, and for every
way in which the grammar does that the three are told of the whole by those of the parts.
-/

set_option autoImplicit false

namespace Lox

mutual

/-- The expression with zero for every identity in it. -/
def Expr.unnumbered : Expr → Expr
  | .literal value => .literal value
  | .grouping e => .grouping e.unnumbered
  | .unary op line e => .unary op line e.unnumbered
  | .binary op line l r => .binary op line l.unnumbered r.unnumbered
  | .logical op line l r => .logical op line l.unnumbered r.unnumbered
  | .var _ name => .var 0 name
  | .assign _ name e => .assign 0 name e.unnumbered
  | .call callee line args => .call callee.unnumbered line (Expr.unnumberedAll args)
  | .get e name => .get e.unnumbered name
  | .set o name e => .set o.unnumbered name e.unnumbered
  | .this _ line => .this 0 line
  | .super _ line method => .super 0 line method

def Expr.unnumberedAll : List Expr → List Expr
  | [] => []
  | e :: es => e.unnumbered :: Expr.unnumberedAll es

end

def Superclass.unnumbered (s : Superclass) : Superclass := ⟨0, s.name⟩

mutual

/-- The statement with zero for every identity in it. -/
def Stmt.unnumbered : Stmt → Stmt
  | .expression e => .expression e.unnumbered
  | .print e => .print e.unnumbered
  | .var name initial => .var name (initial.map Expr.unnumbered)
  | .block body => .block (Stmt.unnumberedAll body)
  | .ifThen test s => .ifThen test.unnumbered s.unnumbered
  | .ifElse test s t => .ifElse test.unnumbered s.unnumbered t.unnumbered
  | .loop test s => .loop test.unnumbered s.unnumbered
  | .function r => .function r.unnumbered
  | .return_ line value => .return_ line (value.map Expr.unnumbered)
  | .class_ name superclass methods =>
    .class_ name (superclass.map Superclass.unnumbered) (Routine.unnumberedAll methods)

def Stmt.unnumberedAll : List Stmt → List Stmt
  | [] => []
  | s :: ss => s.unnumbered :: Stmt.unnumberedAll ss

def Routine.unnumbered : Routine → Routine
  | ⟨name, names, body⟩ => ⟨name, names, Stmt.unnumberedAll body⟩

def Routine.unnumberedAll : List Routine → List Routine
  | [] => []
  | r :: rs => r.unnumbered :: Routine.unnumberedAll rs

end

namespace Grammar

/-- What a rule can answer. -/
class Tree (α : Type) where
  ids : α → List NodeId
  unnumbered : α → α
  Regular : α → Prop

instance : Tree Token := ⟨fun _ ↦ [], id, fun t ↦ t.kind = .identifier → t.lexeme ∉ keywordNames⟩

instance : Tree Name := ⟨fun _ ↦ [], id, fun n ↦ n.text ∉ keywordNames⟩

instance : Tree (List Name) := ⟨fun _ ↦ [], id, fun ns ↦ ∀ n ∈ ns, n.text ∉ keywordNames⟩

instance : Tree Expr := ⟨Expr.ids, Expr.unnumbered, fun e ↦ ∀ Δ, WellRead Δ (.expr e)⟩

instance : Tree (List Expr) :=
  ⟨Expr.idsAll, Expr.unnumberedAll, fun es ↦ ∀ e ∈ es, ∀ Δ, WellRead Δ (.expr e)⟩

instance : Tree (Option Expr) :=
  ⟨Expr.idsOf, Option.map Expr.unnumbered, fun o ↦ ∀ e, o = some e → ∀ Δ, WellRead Δ (.expr e)⟩

instance : Tree (Option Superclass) :=
  ⟨Superclass.idsOf, Option.map Superclass.unnumbered,
    fun o ↦ ∀ s, o = some s → s.name.text ∉ keywordNames⟩

instance : Tree Stmt := ⟨Stmt.ids, Stmt.unnumbered, fun s ↦ ∀ Δ, WellRead Δ (.stmt s)⟩

instance : Tree (List Stmt) :=
  ⟨Stmt.idsAll, Stmt.unnumberedAll, fun ss ↦ ∀ Δ, WellRead Δ (.stmts ss)⟩

instance : Tree Routine := ⟨Routine.ids, Routine.unnumbered, fun r ↦ ∀ Δ, WellRead Δ (.routine r)⟩

instance : Tree (List Routine) :=
  ⟨Routine.idsAll, Routine.unnumberedAll, fun rs ↦ ∀ r ∈ rs, ∀ Δ, WellRead Δ (.routine r)⟩

instance : Tree (Option Stmt) :=
  ⟨fun o ↦ Stmt.idsAll o.toList, Option.map Stmt.unnumbered,
    fun o ↦ ∀ s, o = some s → ∀ Δ, WellRead Δ (.stmt s)⟩

open Lox.Grammar.Tree (Regular)

/-! ### Regular expressions -/

section

variable {e e' l r o : Expr} {es : List Expr} {name : Name} {line : Nat} {id : NodeId}

theorem regular_literal (value : Literal) : Regular (Expr.literal value) :=
  fun _ ↦ wellRead_intro trivial fun _ _ hpart ↦ nomatch hpart

theorem regular_grouping (h : Regular e) : Regular (Expr.grouping e) :=
  fun _ ↦ wellRead_intro trivial fun _ _ hpart ↦ by
    cases hpart
    exact h _

theorem regular_unary (op : UnaryOp) (h : Regular e) : Regular (Expr.unary op line e) :=
  fun _ ↦ wellRead_intro trivial fun _ _ hpart ↦ by
    cases hpart
    exact h _

theorem regular_binary (op : BinaryOp) (hl : Regular l) (hr : Regular r) :
    Regular (Expr.binary op line l r) :=
  fun _ ↦ wellRead_intro trivial fun _ _ hpart ↦ by
    cases hpart with
    | binaryLeft => exact hl _
    | binaryRight => exact hr _

theorem regular_logical (op : LogicalOp) (hl : Regular l) (hr : Regular r) :
    Regular (Expr.logical op line l r) :=
  fun _ ↦ wellRead_intro trivial fun _ _ hpart ↦ by
    cases hpart with
    | logicalLeft => exact hl _
    | logicalRight => exact hr _

theorem regular_var (hname : Regular name) : Regular (Expr.var id name) :=
  fun _ ↦ wellRead_intro hname fun _ _ hpart ↦ by
    cases hpart
    exact wellRead_intro trivial fun _ _ hpart ↦ nomatch hpart

theorem regular_assign (hname : Regular name) (h : Regular e) :
    Regular (Expr.assign id name e) :=
  fun _ ↦ wellRead_intro hname fun _ _ hpart ↦ by
    cases hpart with
    | value => exact h _
    | assigned => exact wellRead_intro trivial fun _ _ hpart ↦ nomatch hpart

theorem regular_call (h : Regular e) (hargs : Regular es) : Regular (Expr.call e line es) :=
  fun _ ↦ wellRead_intro trivial fun _ _ hpart ↦ by
    cases hpart with
    | callee => exact h _
    | argument mem => exact hargs _ mem _

theorem regular_get (h : Regular e) : Regular (Expr.get e name) :=
  fun _ ↦ wellRead_intro trivial fun _ _ hpart ↦ by
    cases hpart
    exact h _

theorem regular_set (ho : Regular o) (h : Regular e) : Regular (Expr.set o name e) :=
  fun _ ↦ wellRead_intro trivial fun _ _ hpart ↦ by
    cases hpart with
    | setObject => exact ho _
    | setValue => exact h _

theorem regular_this : Regular (Expr.this id line) :=
  fun _ ↦ wellRead_intro trivial fun _ _ hpart ↦ by
    cases hpart
    exact wellRead_intro trivial fun _ _ hpart ↦ nomatch hpart

theorem regular_super : Regular (Expr.super id line name) :=
  fun _ ↦ wellRead_intro trivial fun _ _ hpart ↦ by
    cases hpart
    exact wellRead_intro trivial fun _ _ hpart ↦ nomatch hpart

theorem regular_exprs (h : Regular e) (hes : Regular es) : Regular (e :: es) := by
  intro e' he'
  rcases List.mem_cons.1 he' with rfl | he'
  · exact h
  · exact hes e' he'

/-- The part before an equals sign, whose name becomes that of the assignment. -/
theorem name_of_regular_var (h : Regular (Expr.var id name)) : Regular name := (h []).here

theorem object_of_regular_get (h : Regular (Expr.get o name)) : Regular o :=
  fun Δ ↦ (h Δ).part .object

end

/-! ### Regular statements -/

section

variable {e : Expr} {s t : Stmt} {ss : List Stmt} {r : Routine} {rs : List Routine} {name : Name}
  {line : Nat} {value : Option Expr}

theorem regular_expression (h : Regular e) : Regular (Stmt.expression e) :=
  fun _ ↦ wellRead_intro trivial fun _ _ hpart ↦ by
    cases hpart
    exact h _

theorem regular_print (h : Regular e) : Regular (Stmt.print e) :=
  fun _ ↦ wellRead_intro trivial fun _ _ hpart ↦ by
    cases hpart
    exact h _

theorem regular_varDecl (hname : Regular name) (h : Regular value) :
    Regular (Stmt.var name value) :=
  fun _ ↦ wellRead_intro hname fun _ _ hpart ↦ by
    cases hpart
    exact h _ rfl _

theorem regular_return (h : Regular value) : Regular (Stmt.return_ line value) :=
  fun _ ↦ wellRead_intro trivial fun _ _ hpart ↦ by
    cases hpart
    exact h _ rfl _

theorem regular_block (h : Regular ss) : Regular (Stmt.block ss) :=
  fun _ ↦ wellRead_intro trivial fun _ _ hpart ↦ by
    cases hpart
    exact h _

theorem regular_ifThen (h : Regular e) (hs : Regular s) (hdeclared : s.declared = []) :
    Regular (Stmt.ifThen e s) :=
  fun _ ↦ wellRead_intro hdeclared fun _ _ hpart ↦ by
    cases hpart with
    | ifTest => exact h _
    | ifConsequent => exact hs _

theorem regular_ifElse (h : Regular e) (hs : Regular s) (ht : Regular t)
    (hdeclared : s.declared = []) (hdeclared' : t.declared = []) :
    Regular (Stmt.ifElse e s t) :=
  fun _ ↦ wellRead_intro ⟨hdeclared, hdeclared'⟩ fun _ _ hpart ↦ by
    cases hpart with
    | elseTest => exact h _
    | elseConsequent => exact hs _
    | elseAlternative => exact ht _

theorem regular_loop (h : Regular e) (hs : Regular s) (hdeclared : s.declared = []) :
    Regular (Stmt.loop e s) :=
  fun _ ↦ wellRead_intro hdeclared fun _ _ hpart ↦ by
    cases hpart with
    | loopTest => exact h _
    | loopBody => exact hs _

theorem regular_function (h : Regular r) : Regular (Stmt.function r) :=
  fun _ ↦ wellRead_intro trivial fun _ _ hpart ↦ by
    cases hpart
    exact h _

theorem regular_class {superclass : Option Superclass} (hname : Regular name)
    (hsuper : Regular superclass) (h : Regular rs) :
    Regular (Stmt.class_ name superclass rs) :=
  fun _ ↦ wellRead_intro ⟨hname, hsuper⟩ fun _ _ hpart ↦ by
    cases hpart with
    | superclass => exact wellRead_intro trivial fun _ _ hpart ↦ nomatch hpart
    | method mem => exact h _ mem _

theorem regular_noStmt : Regular ([] : List Stmt) :=
  fun _ ↦ wellRead_intro trivial fun _ _ hpart ↦ nomatch hpart

theorem regular_stmts (h : Regular s) (hss : Regular ss) : Regular (s :: ss) :=
  fun _ ↦ wellRead_intro trivial fun _ _ hpart ↦ by
    cases hpart with
    | head => exact h _
    | tail => exact hss _

theorem regular_routine {names : List Name} (hname : Regular name) (hnames : Regular names)
    (h : Regular ss) : Regular (⟨name, names, ss⟩ : Routine) := by
  refine fun _ ↦ wellRead_intro ⟨hname, fun x hx ↦ ?_⟩ fun _ _ hpart ↦ ?_
  · obtain ⟨n, hn, rfl⟩ := List.mem_map.1 hx
    exact hnames n hn
  · cases hpart
    exact h _

theorem regular_routines (h : Regular r) (hrs : Regular rs) : Regular (r :: rs) := by
  intro r' hr'
  rcases List.mem_cons.1 hr' with rfl | hr'
  · exact h
  · exact hrs r' hr'

end

/-! ### Trees of operators -/

theorem Level.operators_cases {k : Level} {kind : Token.Kind} {join : Nat → Expr → Expr → Expr}
    (hjoin : (kind, join) ∈ k.operators) :
    (∃ op, join = Expr.logical op) ∨ ∃ op, join = Expr.binary op := by
  cases k <;>
    simp only [operators, List.mem_cons, List.not_mem_nil, Prod.mk.injEq, or_false] at hjoin
  case disjunction | conjunction => exact .inl ⟨_, hjoin.2⟩
  case equality | term | factor => rcases hjoin with ⟨-, h⟩ | ⟨-, h⟩ <;> exact .inr ⟨_, h⟩
  case comparison =>
    rcases hjoin with ⟨-, h⟩ | ⟨-, h⟩ | ⟨-, h⟩ | ⟨-, h⟩ <;> exact .inr ⟨_, h⟩

/-- An operator takes its two sides as they are. -/
theorem Level.operators_tree {k : Level} {kind : Token.Kind} {join : Nat → Expr → Expr → Expr}
    (hjoin : (kind, join) ∈ k.operators) (line : Nat) (l r : Expr) :
    (join line l r).ids = l.ids ++ r.ids ∧
      (join line l r).unnumbered = join line l.unnumbered r.unnumbered ∧
      (Regular l → Regular r → Regular (join line l r)) := by
  obtain ⟨op, rfl⟩ | ⟨op, rfl⟩ := operators_cases hjoin
  · exact ⟨rfl, rfl, regular_logical op⟩
  · exact ⟨rfl, rfl, regular_binary op⟩

end Grammar

end Lox
