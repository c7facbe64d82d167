import Lox.Arena
import Lox.Tree.Basic

/-!
Why a running program stops early. Runtime errors are the program's own. Internal faults mean that
its distances do not fit its frames. In a program that was resolved they do, but for a local
variable that is assigned to within its own initial value.
-/

set_option autoImplicit false

namespace Lox

/-- What a program can do wrong while it runs. An error keeps what its message tells of: the name
that nothing was found for, the operator, how many arguments there should be and how many there
are. The line belongs to the failure. -/
inductive RuntimeError
  | undefinedVariable (name : String)
  | undefinedProperty (name : String)
  | negatedOperand
  | numericOperands (op : BinaryOp)
  | addedOperands
  | notCallable
  | argumentCount (expected given : Nat)
  | propertyOfOther
  | fieldOfOther
  | superclassNotClass
  | nativeOperands
deriving DecidableEq

/-- A state that no resolved program is meant to come to. A frame is not where a distance leads, or
what stands in it is not what the evaluation has put there; or a `return` gets out of every call,
and then the text is that of its value. -/
inductive InternalFault
  | frame (fault : Arena.Fault)
  | unresolvedSuper (line : Nat)
  | superNotClass
  | superWithoutThis
  | thisNotObject
  | escapedReturn (text : String)
deriving DecidableEq

/-- Why a run stops before its end. A full sink is the fault of neither the program nor the run: it
comes of a `print` whose output the sink has no room for. -/
inductive Failure
  | runtime (line : Nat) (cause : RuntimeError)
  | internal (fault : InternalFault)
  | sinkFull
deriving DecidableEq

/-- The two numeric messages differ: `div` is a native function and has no operator to name. -/
def RuntimeError.message : RuntimeError → String
  | .undefinedVariable name => "Undefined variable '" ++ name ++ "'."
  | .undefinedProperty name => "Undefined property '" ++ name ++ "'."
  | .negatedOperand => "Operand must be a number."
  | .numericOperands op => "Operands of '" ++ op.symbol ++ "' must be numbers."
  | .addedOperands =>
    "Operands of '" ++ BinaryOp.add.symbol ++ "' must be two numbers or two strings."
  | .notCallable => "Can only call functions and classes."
  | .argumentCount expected given =>
    "Expected " ++ toString expected ++ " arguments but got " ++ toString given ++ "."
  | .propertyOfOther => "Only instances have properties."
  | .fieldOfOther => "Only instances have fields."
  | .superclassNotClass => "Superclass must be a class."
  | .nativeOperands => "Operands must be numbers."

/-- A frame as internal faults name it, by its slot. -/
def FrameId.text (id : FrameId) : String := "EnvId(" ++ toString id.slot ++ ")"

/-- Faults of the distances name the frame that the search has begun at, and the distance, rather
than the frame it has come to. -/
def Arena.Fault.message : Arena.Fault → String
  | .dangling frame => "dangling environment " ++ frame.text
  | .shortChain start distance =>
    "scope chain of " ++ start.text ++ " shorter than " ++ toString distance
  | .unbound name distance start =>
    "'" ++ name ++ "' not found " ++ toString distance ++ " frame(s) out from " ++ start.text
  | .unassignable name distance start =>
    "cannot assign '" ++ name ++ "' " ++ toString distance ++ " frame(s) out from " ++ start.text
  | .endlessChain start => "scope chain of " ++ start.text ++ " has no end"

/-- What follows the words `Internal interpreter error`. No line comes with it, as the cause is not
in the text of the program. -/
def InternalFault.message : InternalFault → String
  | .frame fault => fault.message
  | .unresolvedSuper line => "unresolved 'super' at line " ++ toString line
  | .superNotClass => "'super' is not bound to a class"
  | .superWithoutThis => "'super' resolved without a 'this' frame"
  | .thisNotObject => "'this' is not bound to an instance"
  | .escapedReturn text => "return signal escaped to top level with " ++ text

namespace Failure

/-- The whole message of a run that has failed. -/
def message : Failure → String
  | .runtime line cause => "[line " ++ toString line ++ "] Runtime error: " ++ cause.message
  | .internal fault => "Internal interpreter error: " ++ fault.message
  | .sinkFull => "sink full"

/-- The line that the program is at fault in; only runtime errors are its own. -/
def line? : Failure → Option Nat
  | .runtime line _ => some line
  | _ => none

end Failure

end Lox
