import Lox.Number.Text
import Lox.Tree.Basic

/-!
Printed trees, in parentheses with the operator first. Names and literals stand for
themselves, a string without quotes.
-/

set_option autoImplicit false

namespace Lox

/-- Space between the parts of a form. -/
def spaced (parts : List String) : String := " ".intercalate parts

/-- A form in parentheses. -/
def form (parts : List String) : String := "(" ++ spaced parts ++ ")"

def Literal.text : Literal → String
  | .number value => value.treeText
  | .string value => value
  | .true => "true"
  | .false => "false"
  | .nil => "nil"

mutual

def Expr.text : Expr → String
  | .literal value => value.text
  | .grouping inner => form ["group", inner.text]
  | .unary op _ operand => form [op.symbol, operand.text]
  | .binary op _ left right => form [op.symbol, left.text, right.text]
  | .logical op _ left right => form [op.symbol, left.text, right.text]
  | .var _ name => name.text
  | .assign _ name value => form ["=", name.text, value.text]
  | .call callee _ arguments => form ("call" :: callee.text :: Expr.texts arguments)
  | .get object name => form [".", object.text, name.text]
  | .set object name value => form ["=", form [".", object.text, name.text], value.text]
  | .this _ _ => "this"
  | .super _ _ method => form ["super", method.text]

def Expr.texts : List Expr → List String
  | [] => []
  | e :: es => e.text :: Expr.texts es

end

/-- Name and parameters of a routine. -/
def Routine.heading (name : Name) (parameters : List Name) : String :=
  name.text ++ "(" ++ spaced (parameters.map Name.text) ++ ")"

mutual

def Stmt.text : Stmt → String
  | .expression value => form [";", value.text]
  | .print value => form ["print", value.text]
  | .var name none => form ["var", name.text]
  | .var name (some initial) => form ["var", name.text, initial.text]
  | .block body => form ("block" :: Stmt.texts body)
  | .ifThen condition consequent => form ["if", condition.text, consequent.text]
  | .ifElse condition consequent alternative =>
    form ["if-else", condition.text, consequent.text, alternative.text]
  | .loop condition body => form ["while", condition.text, body.text]
  | .function routine => routine.text "fun"
  | .return_ _ none => form ["return"]
  | .return_ _ (some value) => form ["return", value.text]
  | .class_ name none methods => form ("class" :: name.text :: Routine.texts methods)
  | .class_ name (some superclass) methods =>
    form ("class" :: name.text :: "<" :: superclass.name.text :: Routine.texts methods)

def Stmt.texts : List Stmt → List String
  | [] => []
  | s :: ss => s.text :: Stmt.texts ss

def Routine.text (keyword : String) : Routine → String
  | ⟨name, parameters, body⟩ =>
    form (keyword :: Routine.heading name parameters :: Stmt.texts body)

def Routine.texts : List Routine → List String
  | [] => []
  | r :: rs => r.text "method" :: Routine.texts rs

end

end Lox
