import Lox.Arena
import Lox.Number.Text
import Lox.Tree.Equality

/-!
Values of a running program. Functions, classes and objects have an identity of their own,
by which they are compared; the fields of an object are kept apart, by its identity.
-/

set_option autoImplicit false

namespace Lox

/-- Functions that are there before a program begins. -/
inductive Native
  | clock
  | pi
  | iel
  | div
deriving DecidableEq

/-- A routine with the frame it was made in. An initializer answers its object. -/
structure Function where
  routine : Routine
  closure : FrameId
  isInitializer : Bool
deriving DecidableEq

def Function.arity (f : Function) : Nat := f.routine.parameters.length

/-- What one class declaration contributes: its name and its own methods. -/
structure ClassLayer where
  id : Nat
  name : String
  methods : Bindings String Function
deriving DecidableEq

/-- A class with the classes it extends, the nearest first. -/
structure Class where
  own : ClassLayer
  ancestors : List ClassLayer
deriving DecidableEq

namespace Class

def layers (c : Class) : List ClassLayer := c.own :: c.ancestors

/-- The method of a name: the nearest layer that has it wins. -/
def method? (c : Class) (name : String) : Option Function :=
  c.layers.findSome? fun layer ↦ layer.methods.find? name

/-- Arguments that making an object takes. -/
def arity (c : Class) : Nat :=
  match c.method? initializerName with
  | some f => f.arity
  | none => 0

end Class

structure Object where
  id : Nat
  class_ : Class
deriving DecidableEq

inductive Value
  | nil
  | bool (b : Bool)
  | number (n : Number)
  | string (s : String)
  | native (f : Native)
  | function (id : Nat) (f : Function)
  | class_ (c : Class)
  | object (o : Object)
deriving DecidableEq

namespace Value

/-- Everything but nil and false counts as true. -/
def truthy : Value → Bool
  | .nil => false
  | .bool b => b
  | _ => true

/-- Equality of the language. -/
def same : Value → Value → Bool
  | .nil, .nil => true
  | .bool a, .bool b => a == b
  | .number a, .number b => a.same b
  | .string a, .string b => a == b
  | .native f, .native g => decide (f = g)
  | .function a _, .function b _ => a == b
  | .class_ a, .class_ b => a.own.id == b.own.id
  | .object a, .object b => a.id == b.id
  | _, _ => false

/-- What printing shows. -/
def text : Value → String
  | .nil => "nil"
  | .bool true => "true"
  | .bool false => "false"
  | .number n => n.text
  | .string s => s
  | .native _ => "<native fn>"
  | .function _ f => "<fn " ++ f.routine.name.text ++ ">"
  | .class_ c => c.own.name
  | .object o => o.class_.own.name ++ " instance"

end Value

end Lox
