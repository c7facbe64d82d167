import Lox.Tree.Basic

/-!
Equality of syntax trees is decided by walking both trees at once. Trees contain lists of trees, so
each equality comes with one of lists.
-/

set_option autoImplicit false

namespace Lox

mutual

/-- Whether two expressions are one, with their identities and lines. -/
def Expr.same : Expr → Expr → Bool
  | .literal a, .literal b => decide (a = b)
  | .grouping a, .grouping b => a.same b
  | .unary op line a, .unary op' line' b => decide (op = op') && decide (line = line') && a.same b
  | .binary op line a c, .binary op' line' b d =>
    decide (op = op') && decide (line = line') && a.same b && c.same d
  | .logical op line a c, .logical op' line' b d =>
    decide (op = op') && decide (line = line') && a.same b && c.same d
  | .var id name, .var id' name' => decide (id = id') && decide (name = name')
  | .assign id name a, .assign id' name' b =>
    decide (id = id') && decide (name = name') && a.same b
  | .call a line as, .call b line' bs => a.same b && decide (line = line') && Expr.sameAll as bs
  | .get a name, .get b name' => a.same b && decide (name = name')
  | .set a name c, .set b name' d => a.same b && decide (name = name') && c.same d
  | .this id line, .this id' line' => decide (id = id') && decide (line = line')
  | .super id line name, .super id' line' name' =>
    decide (id = id') && decide (line = line') && decide (name = name')
  | _, _ => false

/-- Whether two lists of arguments are one; they have to be of one length. -/
def Expr.sameAll : List Expr → List Expr → Bool
  | [], [] => true
  | a :: as, b :: bs => a.same b && Expr.sameAll as bs
  | _, _ => false

end

mutual

/-- The walk finds exactly the equal trees, so that it decides equality. -/
theorem Expr.same_iff (a b : Expr) : a.same b = true ↔ a = b := by
  cases a <;> cases b <;>
    simp [Expr.same, and_assoc, Expr.same_iff, Expr.sameAll_iff]

theorem Expr.sameAll_iff (as bs : List Expr) : Expr.sameAll as bs = true ↔ as = bs := by
  cases as <;> cases bs <;> simp [Expr.sameAll, Expr.same_iff, Expr.sameAll_iff]

end

instance : DecidableEq Expr := fun a b ↦ decidable_of_iff _ (Expr.same_iff a b)

mutual

/-- Whether two statements are one. Statements have no identities, but the expressions in them
do. -/
def Stmt.same : Stmt → Stmt → Bool
  | .expression a, .expression b => decide (a = b)
  | .print a, .print b => decide (a = b)
  | .var name a, .var name' b => decide (name = name') && decide (a = b)
  | .block as, .block bs => Stmt.sameAll as bs
  | .ifThen c a, .ifThen c' b => decide (c = c') && a.same b
  | .ifElse c a d, .ifElse c' b e => decide (c = c') && a.same b && d.same e
  | .loop c a, .loop c' b => decide (c = c') && a.same b
  | .function a, .function b => a.same b
  | .return_ line a, .return_ line' b => decide (line = line') && decide (a = b)
  | .class_ name a as, .class_ name' b bs =>
    decide (name = name') && decide (a = b) && Routine.sameAll as bs
  | _, _ => false

/-- Whether two sequences of statements are one. -/
def Stmt.sameAll : List Stmt → List Stmt → Bool
  | [], [] => true
  | a :: as, b :: bs => a.same b && Stmt.sameAll as bs
  | _, _ => false

/-- Whether two functions have the same name and parameters, and one body. -/
def Routine.same : Routine → Routine → Bool
  | ⟨name, params, body⟩, ⟨name', params', body'⟩ =>
    decide (name = name') && decide (params = params') && Stmt.sameAll body body'

/-- Whether two classes have the same methods in the same order. -/
def Routine.sameAll : List Routine → List Routine → Bool
  | [], [] => true
  | a :: as, b :: bs => a.same b && Routine.sameAll as bs
  | _, _ => false

end

mutual

theorem Stmt.same_iff (a b : Stmt) : a.same b = true ↔ a = b := by
  cases a <;> cases b <;>
    simp [Stmt.same, and_assoc, Stmt.same_iff, Stmt.sameAll_iff, Routine.same_iff,
      Routine.sameAll_iff]
termination_by structural a

theorem Stmt.sameAll_iff (as bs : List Stmt) : Stmt.sameAll as bs = true ↔ as = bs := by
  cases as <;> cases bs <;> simp [Stmt.sameAll, Stmt.same_iff, Stmt.sameAll_iff]
termination_by structural as

theorem Routine.same_iff (a b : Routine) : a.same b = true ↔ a = b := by
  cases a
  cases b
  simp [Routine.same, and_assoc, Stmt.sameAll_iff]
termination_by structural a

theorem Routine.sameAll_iff (as bs : List Routine) : Routine.sameAll as bs = true ↔ as = bs := by
  cases as <;> cases bs <;> simp [Routine.sameAll, Routine.same_iff, Routine.sameAll_iff]
termination_by structural as

end

instance : DecidableEq Stmt := fun a b ↦ decidable_of_iff _ (Stmt.same_iff a b)

instance : DecidableEq Routine := fun a b ↦ decidable_of_iff _ (Routine.same_iff a b)

end Lox
