import Lox.Proofs.Grammar.Derivation
import Lox.Proofs.Number.Texts
import Lox.Proofs.Outlines.Trees
import Lox.Proofs.Printing.Shapes

/-!
Shapes and leaves of trees. The text of a tree is that of its shape (`Stmt.text_shape`). Its leaves
are the names and literals that stand in it; where a leaf is legible, it is printed as one word.
-/

set_option autoImplicit false

namespace Lox

/-- A form in parentheses. -/
def Shape.node (head : String) (parts : List Shape) : Shape := .bracket "" (.word head :: parts)

def Name.shape (n : Name) : Shape := .word n.text

mutual

def Expr.shape : Expr → Shape
  | .literal value => .word value.text
  | .grouping e => .node "group" [e.shape]
  | .unary op _ e => .node op.symbol [e.shape]
  | .binary op _ l r => .node op.symbol [l.shape, r.shape]
  | .logical op _ l r => .node op.symbol [l.shape, r.shape]
  | .var _ name => name.shape
  | .assign _ name e => .node "=" [name.shape, e.shape]
  | .call callee _ args => .node "call" (callee.shape :: Expr.shapes args)
  | .get e name => .node "." [e.shape, name.shape]
  | .set o name e => .node "=" [.node "." [o.shape, name.shape], e.shape]
  | .this _ _ => .word "this"
  | .super _ _ method => .node "super" [method.shape]

def Expr.shapes : List Expr → List Shape
  | [] => []
  | e :: es => e.shape :: Expr.shapes es

end

mutual

def Stmt.shape : Stmt → Shape
  | .expression e => .node ";" [e.shape]
  | .print e => .node "print" [e.shape]
  | .var name none => .node "var" [name.shape]
  | .var name (some e) => .node "var" [name.shape, e.shape]
  | .block body => .node "block" (Stmt.shapes body)
  | .ifThen test s => .node "if" [test.shape, s.shape]
  | .ifElse test s t => .node "if-else" [test.shape, s.shape, t.shape]
  | .loop test s => .node "while" [test.shape, s.shape]
  | .function r => r.shape "fun"
  | .return_ _ none => .node "return" []
  | .return_ _ (some e) => .node "return" [e.shape]
  | .class_ name none methods => .node "class" (name.shape :: Routine.shapes methods)
  | .class_ name (some superclass) methods =>
    .node "class" (name.shape :: .word "<" :: superclass.name.shape :: Routine.shapes methods)

def Stmt.shapes : List Stmt → List Shape
  | [] => []
  | s :: ss => s.shape :: Stmt.shapes ss

def Routine.shape (keyword : String) : Routine → Shape
  | ⟨name, parameters, body⟩ =>
    .node keyword (.bracket name.text (parameters.map Name.shape) :: Stmt.shapes body)

def Routine.shapes : List Routine → List Shape
  | [] => []
  | r :: rs => r.shape "method" :: Routine.shapes rs

end

/-! ### The text of a tree is that of its shape -/

theorem Shape.text_node (head : String) (parts : List Shape) :
    (Shape.node head parts).text = form (head :: Shape.texts parts) := by
  simp [Shape.node, Shape.text, Shape.texts]

theorem Shape.texts_names (names : List Name) :
    Shape.texts (names.map Name.shape) = names.map Name.text := by
  induction names with
  | nil => rfl
  | cons n ns ih => simp [Shape.texts, Name.shape, Shape.text, ih]

mutual

theorem Expr.text_shape : (e : Expr) → e.shape.text = e.text
  | .literal _ | .var _ _ | .this _ _ => by
    simp [Expr.shape, Expr.text, Name.shape, Shape.text]
  | .grouping e | .unary _ _ e | .assign _ _ e | .get e _ => by
    simp [Expr.shape, Expr.text, Shape.text_node, Shape.texts, Name.shape, Shape.text,
      Expr.text_shape e]
  | .binary _ _ l r | .logical _ _ l r | .set l _ r => by
    simp [Expr.shape, Expr.text, Shape.text_node, Shape.texts, Name.shape, Shape.text,
      Expr.text_shape l, Expr.text_shape r]
  | .super _ _ _ => by
    simp [Expr.shape, Expr.text, Shape.text_node, Shape.texts, Name.shape, Shape.text]
  | .call callee _ args => by
    simp [Expr.shape, Expr.text, Shape.text_node, Shape.texts, Expr.text_shape callee,
      Expr.texts_shapes args]

theorem Expr.texts_shapes : (es : List Expr) → Shape.texts (Expr.shapes es) = Expr.texts es
  | [] => rfl
  | e :: es => congrArg₂ List.cons (Expr.text_shape e) (Expr.texts_shapes es)

end

mutual

theorem Stmt.text_shape : (s : Stmt) → s.shape.text = s.text
  | .expression e | .print e | .var _ (some e) | .return_ _ (some e) => by
    simp [Stmt.shape, Stmt.text, Shape.text_node, Shape.texts, Name.shape, Shape.text,
      Expr.text_shape e]
  | .var _ none | .return_ _ none => by
    simp [Stmt.shape, Stmt.text, Shape.text_node, Shape.texts, Name.shape, Shape.text]
  | .block body => by
    simp [Stmt.shape, Stmt.text, Shape.text_node, Stmt.texts_shapes body]
  | .ifThen test s | .loop test s => by
    simp [Stmt.shape, Stmt.text, Shape.text_node, Shape.texts, Expr.text_shape test,
      Stmt.text_shape s]
  | .ifElse test s t => by
    simp [Stmt.shape, Stmt.text, Shape.text_node, Shape.texts, Expr.text_shape test,
      Stmt.text_shape s, Stmt.text_shape t]
  | .function r => Routine.text_shape "fun" r
  | .class_ _ none methods | .class_ _ (some _) methods => by
    simp [Stmt.shape, Stmt.text, Shape.text_node, Shape.texts, Name.shape, Shape.text,
      Routine.texts_shapes methods]

theorem Stmt.texts_shapes : (ss : List Stmt) → Shape.texts (Stmt.shapes ss) = Stmt.texts ss
  | [] => rfl
  | s :: ss => congrArg₂ List.cons (Stmt.text_shape s) (Stmt.texts_shapes ss)

theorem Routine.text_shape (keyword : String) : (r : Routine) →
    (r.shape keyword).text = r.text keyword
  | ⟨name, names, body⟩ => by
    simp [Routine.shape, Routine.text, Routine.heading, Shape.text_node, Shape.texts, Shape.text,
      Shape.texts_names, form, String.append_assoc, Stmt.texts_shapes body]

theorem Routine.texts_shapes : (rs : List Routine) →
    Shape.texts (Routine.shapes rs) = Routine.texts rs
  | [] => rfl
  | r :: rs => congrArg₂ List.cons (Routine.text_shape "method" r) (Routine.texts_shapes rs)

end

/-! ### Names and literals -/

/-- What stands in a tree as it stood in the program. -/
inductive Leaf
  | name (text : String)
  | literal (value : Literal)

mutual

def Expr.leaves : Expr → List Leaf
  | .literal value => [.literal value]
  | .grouping e | .unary _ _ e => e.leaves
  | .binary _ _ l r | .logical _ _ l r => l.leaves ++ r.leaves
  | .var _ name | .super _ _ name => [.name name.text]
  | .assign _ name e | .get e name => .name name.text :: e.leaves
  | .call callee _ args => callee.leaves ++ Expr.leavesAll args
  | .set o name e => .name name.text :: (o.leaves ++ e.leaves)
  | .this _ _ => []

def Expr.leavesAll : List Expr → List Leaf
  | [] => []
  | e :: es => e.leaves ++ Expr.leavesAll es

end

def Expr.leavesOf : Option Expr → List Leaf
  | some e => e.leaves
  | none => []

def Superclass.leavesOf : Option Superclass → List Leaf
  | some s => [.name s.name.text]
  | none => []

mutual

def Stmt.leaves : Stmt → List Leaf
  | .expression e | .print e => e.leaves
  | .var name e => .name name.text :: Expr.leavesOf e
  | .block body => Stmt.leavesAll body
  | .ifThen test s | .loop test s => test.leaves ++ s.leaves
  | .ifElse test s t => test.leaves ++ (s.leaves ++ t.leaves)
  | .function r => r.leaves
  | .return_ _ e => Expr.leavesOf e
  | .class_ name superclass methods =>
    .name name.text :: (Superclass.leavesOf superclass ++ Routine.leavesAll methods)

def Stmt.leavesAll : List Stmt → List Leaf
  | [] => []
  | s :: ss => s.leaves ++ Stmt.leavesAll ss

def Routine.leaves : Routine → List Leaf
  | ⟨name, names, body⟩ =>
    .name name.text :: (names.map (fun n ↦ .name n.text) ++ Stmt.leavesAll body)

def Routine.leavesAll : List Routine → List Leaf
  | [] => []
  | r :: rs => r.leaves ++ Routine.leavesAll rs

end

/-- The leaf is read as what it is from its text. Strings are printed without their quotes and are
not. -/
def Leaf.Legible : Leaf → Prop
  | .name text => Scan.ReadsAs text .identifier
  | .literal (.number value) => value.isFinite ∧ value.isNegative = false
  | .literal (.string _) => False
  | .literal _ => True

/-! ### Words -/

namespace Shape

theorem isSolid_of_isWordPart {c : Char} (h : Scan.isWordPart c) : isSolid c := by
  have hne : ∀ d, Scan.isWordPart d = false → c ≠ d := by
    rintro d hd rfl
    exact absurd h (by simp [hd])
  simp [isSolid, hne ' ' rfl, hne '(' rfl, hne ')' rfl]

theorem isWord_of_identifier {text : String} (h : Scan.ReadsAs text .identifier) : IsWord text := by
  obtain ⟨hne, hparts⟩ := (Scan.readsAs_iff.1 h).of_identifier
  exact ⟨hne, fun c hc ↦ isSolid_of_isWordPart (hparts c hc)⟩

theorem isWord_of_number {text : String} {value : Number} (h : Scan.ReadsAs text (.number value)) :
    IsWord text := by
  obtain ⟨-, hne, hdigits⟩ := (Scan.readsAs_iff.1 h).of_number
  refine ⟨hne, fun c hc ↦ ?_⟩
  rcases hdigits c hc with hdigit | rfl
  · exact isSolid_of_isWordPart (Scan.isWordPart_of_isDigit hdigit)
  · rfl

end Shape

end Lox
