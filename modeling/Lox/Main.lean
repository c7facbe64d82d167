import Lox.CommandLine
import Std.Time.DateTime.Timestamp

/-!
The program: arguments, the file and the log are read and written here, and nothing is
decided here.
-/

set_option autoImplicit false

namespace Lox

def usage : String :=
  "Usage: lox [--log] <tokenize [--json] | parse | run> FILE\n"

/-- More than any run uses up. -/
def mainFuel : Nat := 0x1000000000000000

/-- A clock that shows this time first. A run has no other time than that of its readings, so they
go on by a millisecond each thousand times, and a program that waits comes to an end. -/
def clockFrom (now : Std.Time.Timestamp) : Clock where
  shows n := now.toMillisecondsSinceUnixEpoch.val.toInt64 + Int64.ofNat (n / 1000)
  readings := 0

/-- The number of a system error, which may come with its sign turned. -/
def errorNumber (code : UInt32) : UInt32 := if code < 0x80000000 then code else 0 - code

/-- What an error of the system says of a file; none if it is of another kind. -/
def systemFault? : IO.Error → Option SystemFault
  | .noFileOrDirectory _ _ _ => some .missing
  | .inappropriateType _ code _ =>
    if errorNumber code = 20 then some .notDirectory else some .directory
  | .invalidArgument _ code _ => if errorNumber code = 36 then some .nameTooLong else none
  | _ => none

/-- The answer of an action, or what the system says of the file it is about. -/
def attempting {α : Type} (action : IO α) : IO (Except SystemFault α) := do
  try
    let answer ← action
    return .ok answer
  catch fault =>
    match systemFault? fault with
    | some cause => return .error cause
    | none => throw fault

def leave (exit : Exit) : IO UInt32 := do
  (← IO.getStdout).write exit.output
  IO.eprint exit.errors
  return UInt32.ofNat exit.code

def startLog (i : Invocation) : IO Unit :=
  if i.log then IO.FS.writeFile Exit.logFile ("Reading " ++ i.file ++ "\n") else pure ()

def perform (i : Invocation) : IO UInt32 := do
  match ← attempting (startLog i) with
  | .error fault => leave (.ofLogFault fault)
  | .ok _ =>
    let content ← attempting (IO.FS.readBinFile i.file)
    let clock := clockFrom (← Std.Time.Timestamp.now)
    match Exit.ofFile? mainFuel clock i (content.map ByteArray.toList) with
    | none => return UInt32.ofNat Exit.runtimeError
    | some exit => leave exit

end Lox

def main (arguments : List String) : IO UInt32 :=
  match Lox.Request.ofArguments? arguments with
  | none => do
    IO.eprint Lox.usage
    return UInt32.ofNat Lox.Exit.usageError
  | some .version => Lox.leave .version
  | some (.perform i) => Lox.perform i
