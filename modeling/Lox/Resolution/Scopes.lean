import Lox.Bindings
import Lox.Diagnostic
import Lox.Tree.Basic

/-!
Scopes as they are open at one place of a program, and what resolution has found so far. A
name is declared when its scope takes it in and ready when its initial value has been given;
in between it must not be read.
-/

set_option autoImplicit false

namespace Lox

/-- How many scopes out an expression finds its name. Names without an entry are global. -/
abbrev Distances := Bindings NodeId Nat

namespace Resolution

inductive Readiness
  | declared
  | ready
deriving DecidableEq

abbrev Scope := Bindings String Readiness

/-- The scopes are listed from the innermost outwards, the global one apart. -/
structure State where
  scopes : List Scope
  globals : Scope
  distances : Distances
  diagnostics : List Diagnostic

namespace State

def initial : State := ⟨[], .empty, .empty, []⟩

def enter (s : State) : State := { s with scopes := .empty :: s.scopes }

def leave (s : State) : State := { s with scopes := s.scopes.tail }

/-- Sets a name in the innermost scope. -/
def mark (s : State) (name : String) (readiness : Readiness) : State :=
  match s.scopes with
  | [] => { s with globals := s.globals.insert name readiness }
  | scope :: outer => { s with scopes := scope.insert name readiness :: outer }

def declare (s : State) (name : Name) : State := s.mark name.text .declared

def define (s : State) (name : Name) : State := s.mark name.text .ready

def report (s : State) (line : Nat) (cause : ResolutionError) : State :=
  { s with diagnostics := s.diagnostics ++ [.resolution line cause] }

def reportIf (s : State) (fault : Bool) (line : Nat) (cause : ResolutionError) : State :=
  if fault then s.report line cause else s

/-- How far out the nearest scope with this name is. -/
def distance? (s : State) (name : String) : Option Nat :=
  s.scopes.findIdx? fun scope ↦ scope.contains name

/-- Records where an expression finds its name. -/
def record (s : State) (id : NodeId) (name : String) : State :=
  match s.distance? name with
  | some distance => { s with distances := s.distances.insert id distance }
  | none => s

/-- Whether a read of the name would see it before it is ready: it waits in the innermost
scope, or it is a global one that waits and no scope hides it. -/
def awaits (s : State) (name : String) : Bool :=
  (match s.scopes with
    | [] => false
    | scope :: _ => decide (scope.find? name = some .declared)) ||
  ((s.distance? name).isNone && decide (s.globals.find? name = some .declared))

end State

end Resolution

end Lox
