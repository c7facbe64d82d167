import Lox.Failure
import Lox.Value

/-!
The native functions: how many arguments each takes, and what the frame of all of them holds.
-/

set_option autoImplicit false

namespace Lox

namespace Native

def all : List Native := [.clock, .pi, .iel, .div]

def name : Native → String
  | .clock => "clock"
  | .pi => "pi"
  | .iel => "iel"
  | .div => "div"

def arity : Native → Nat
  | .clock => 0
  | .pi => 0
  | .iel => 0
  | .div => 1

/-- Eleven places of pi. -/
def piValue : Number := Number.ofDigits 314159265359 11

def two : Number := Number.ofDigits 2 0

def ielText : String :=
  "Pronom personnel sujet de la troisième personne du singulier et du pluriel, \n " ++
    "employé pour évoquer une personne quel que soit son genre."

/-- The global frame of a new program. -/
def bindings : Bindings String Value := .ofList (all.map fun f ↦ (f.name, .native f))

end Native

end Lox
