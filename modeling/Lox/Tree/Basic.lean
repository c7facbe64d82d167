import Lox.Number.Basic

/-!
Syntax trees. What the grammar fixes is not kept: a node holds the lines that messages need,
and the identity by which its binding is recorded. Grouping is kept, since it is printed.
-/

set_option autoImplicit false

namespace Lox

/-- A name as it stands in a program. -/
structure Name where
  text : String
  line : Nat
deriving DecidableEq

/-- Identity of an expression whose binding is resolved, drawn in order of reading. -/
abbrev NodeId := Nat

inductive UnaryOp
  | not
  | negate
deriving DecidableEq

inductive BinaryOp
  | add | subtract | multiply | divide
  | greater | greaterEqual | less | lessEqual
  | equal | notEqual
deriving DecidableEq

inductive LogicalOp
  | and
  | or
deriving DecidableEq

inductive Literal
  | number (value : Number)
  | string (value : String)
  | true
  | false
  | nil
deriving DecidableEq

/-- The line of a call is that of its closing parenthesis. -/
inductive Expr
  | literal (value : Literal)
  | grouping (inner : Expr)
  | unary (op : UnaryOp) (line : Nat) (operand : Expr)
  | binary (op : BinaryOp) (line : Nat) (left right : Expr)
  | logical (op : LogicalOp) (line : Nat) (left right : Expr)
  | var (id : NodeId) (name : Name)
  | assign (id : NodeId) (name : Name) (value : Expr)
  | call (callee : Expr) (line : Nat) (arguments : List Expr)
  | get (object : Expr) (name : Name)
  | set (object : Expr) (name : Name) (value : Expr)
  | this (id : NodeId) (line : Nat)
  | super (id : NodeId) (line : Nat) (method : Name)

/-- A class that another one extends is read like a variable. -/
structure Superclass where
  id : NodeId
  name : Name
deriving DecidableEq

mutual

inductive Stmt
  | expression (value : Expr)
  | print (value : Expr)
  | var (name : Name) (initial : Option Expr)
  | block (body : List Stmt)
  | ifThen (condition : Expr) (consequent : Stmt)
  | ifElse (condition : Expr) (consequent alternative : Stmt)
  | loop (condition : Expr) (body : Stmt)
  | function (routine : Routine)
  | return_ (line : Nat) (value : Option Expr)
  | class_ (name : Name) (superclass : Option Superclass) (methods : List Routine)

/-- A function or a method. -/
structure Routine where
  name : Name
  parameters : List Name
  body : List Stmt

end

/-- Methods of this name set up a new object. -/
def initializerName : String := "init"

def UnaryOp.symbol : UnaryOp → String
  | .not => "!"
  | .negate => "-"

def BinaryOp.symbol : BinaryOp → String
  | .add => "+"
  | .subtract => "-"
  | .multiply => "*"
  | .divide => "/"
  | .greater => ">"
  | .greaterEqual => ">="
  | .less => "<"
  | .lessEqual => "<="
  | .equal => "=="
  | .notEqual => "!="

def LogicalOp.symbol : LogicalOp → String
  | .and => "and"
  | .or => "or"

end Lox
