import Lox.Diagnostic
import Lox.Tree.Basic
import Mathlib.Data.Multiset.AddSub
import Mathlib.Data.Multiset.Filter

/-!
Misplaced constructs, as they show in the tree and apart from how they are looked for. Some
constructs are faults in some places, so each is taken with what it stands in, from the innermost
outwards, and judged by that alone. Of a program all violations count, in no order.
-/

set_option autoImplicit false

namespace Lox

/-- What a construct can stand in, as far as that makes a difference. -/
inductive Enclosing
  | initial (name : String)
  | function
  | method (name : String)
  | class_ (extending : Bool)
deriving DecidableEq

namespace Enclosing

def isRoutine : Enclosing → Bool
  | .function | .method _ => true
  | .initial _ | .class_ _ => false

/-- Whether a class extends another one, of what is a class. -/
def extending? : Enclosing → Option Bool
  | .class_ extending => some extending
  | .initial _ | .function | .method _ => none

end Enclosing

/-- The constructs that are faults in some places. -/
inductive Construct
  | read (name : Name)
  | this (line : Nat)
  | super (line : Nat)
  | return_ (line : Nat) (valued : Bool)
  | extension (name superclass : Name)
deriving DecidableEq

/-- A construct and all that it stands in, from the innermost outwards. -/
structure Occurrence where
  within : List Enclosing
  construct : Construct
deriving DecidableEq

/-- What is wrong with a construct where it stands. -/
def Occurrence.violation? (o : Occurrence) : Option Diagnostic :=
  match o.construct with
  | .read name =>
    if .initial name.text ∈ o.within then some (.resolution name.line .ownInitializer) else none
  | .this line =>
    match o.within.findSome? Enclosing.extending? with
    | none => some (.resolution line .thisOutsideClass)
    | some _ => none
  | .super line =>
    match o.within.findSome? Enclosing.extending? with
    | none => some (.resolution line .superOutsideClass)
    | some false => some (.resolution line .superWithoutSuperclass)
    | some true => none
  | .return_ line valued =>
    match o.within.find? Enclosing.isRoutine with
    | none => some (.resolution line .returnOutsideFunction)
    | some r =>
      if r = .method initializerName ∧ valued = true then
        some (.resolution line .valueFromInitializer)
      else none
  | .extension name superclass =>
    if superclass.text = name.text then some (.resolution superclass.line .selfInheritance)
    else none

/-! ### Every construct where it stands -/

mutual

def Expr.occurrences (π : List Enclosing) : Expr → Multiset Occurrence
  | .literal _ => 0
  | .grouping e | .unary _ _ e | .get e _ | .assign _ _ e => e.occurrences π
  | .binary _ _ l r | .logical _ _ l r => l.occurrences π + r.occurrences π
  | .var _ name => {⟨π, .read name⟩}
  | .call callee _ args => callee.occurrences π + Expr.occurrencesAll π args
  | .set o _ e => o.occurrences π + e.occurrences π
  | .this _ line => {⟨π, .this line⟩}
  | .super _ line _ => {⟨π, .super line⟩}

def Expr.occurrencesAll (π : List Enclosing) : List Expr → Multiset Occurrence
  | [] => 0
  | e :: es => e.occurrences π + Expr.occurrencesAll π es

end

def Expr.occurrencesOf (π : List Enclosing) : Option Expr → Multiset Occurrence
  | none => 0
  | some e => e.occurrences π

/-- The name of the class that another one extends is also read. -/
def Superclass.occurrences (π : List Enclosing) (name : Name) :
    Option Superclass → Multiset Occurrence
  | none => 0
  | some s => {⟨π, .extension name s.name⟩, ⟨π, .read s.name⟩}

mutual

def Stmt.occurrences (π : List Enclosing) : Stmt → Multiset Occurrence
  | .expression e | .print e => e.occurrences π
  | .var name initial => Expr.occurrencesOf (.initial name.text :: π) initial
  | .block body => Stmt.occurrencesAll π body
  | .ifThen test s | .loop test s => test.occurrences π + s.occurrences π
  | .ifElse test s t => test.occurrences π + (s.occurrences π + t.occurrences π)
  | .function r => r.occurrences (.function :: π)
  | .return_ line value => {⟨π, .return_ line value.isSome⟩} + Expr.occurrencesOf π value
  | .class_ name superclass methods =>
    Superclass.occurrences π name superclass +
      Routine.occurrencesAll (.class_ superclass.isSome :: π) methods

def Stmt.occurrencesAll (π : List Enclosing) : List Stmt → Multiset Occurrence
  | [] => 0
  | s :: ss => s.occurrences π + Stmt.occurrencesAll π ss

def Routine.occurrences (π : List Enclosing) : Routine → Multiset Occurrence
  | ⟨_, _, body⟩ => Stmt.occurrencesAll π body

/-- The constructs in the methods of a class. -/
def Routine.occurrencesAll (π : List Enclosing) : List Routine → Multiset Occurrence
  | [] => 0
  | r :: rs => r.occurrences (.method r.name.text :: π) + Routine.occurrencesAll π rs

end

/-- All that is misplaced in a program. -/
def Stmt.violations (ss : List Stmt) : Multiset Diagnostic :=
  (Stmt.occurrencesAll [] ss).filterMap Occurrence.violation?

end Lox
