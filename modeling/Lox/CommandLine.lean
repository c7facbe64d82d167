import Lox.Program
import Lox.Quoted.Basic
import Lox.Token.Text
import Lox.Tree.Text
import Lox.Utf8

/-!
The command line: which command a row of arguments gives, and what a command answers for the
content of its file.
-/

set_option autoImplicit false

namespace Lox

inductive Command
  | tokenize
  | parse
  | run
deriving DecidableEq

def Command.named? (word : String) : Option Command :=
  if word = "tokenize" then some .tokenize
  else if word = "parse" then some .parse
  else if word = "run" then some .run
  else none

/-- A command with its file. The flags ask for JSON and for a log. -/
structure Invocation where
  command : Command
  file : String
  json : Bool
  log : Bool
deriving DecidableEq

namespace Invocation

/-- Arguments of a command as far as they are read. After two dashes alone, everything is a
file name. -/
structure Draft where
  file : Option String
  json : Bool
  log : Bool
  literal : Bool

def isFlag (argument : String) : Bool :=
  match argument.toList with
  | '-' :: _ :: _ => true
  | _ => false

/-- One argument more; none if it does not fit. A flag is given once at most. -/
def Draft.add? (command : Command) (p : Draft) (argument : String) : Option Draft :=
  if !p.literal && isFlag argument then
    if argument = "--" then some { p with literal := true }
    else if argument = "--log" ∧ p.log = false then some { p with log := true }
    else if argument = "--json" ∧ command = .tokenize ∧ p.json = false then
      some { p with json := true }
    else none
  else if argument = "" ∨ p.file.isSome = true then none
  else some { p with file := some argument }

def addAll? (command : Command) (p : Draft) : List String → Option Draft
  | [] => some p
  | argument :: rest =>
    match p.add? command argument with
    | none => none
    | some more => addAll? command more rest

/-- From the word that names the command on. -/
def ofCommand? (log : Bool) (word : String) (rest : List String) : Option Invocation :=
  match Command.named? word with
  | none => none
  | some command =>
    match addAll? command ⟨none, false, false, false⟩ rest with
    | none => none
    | some p => p.file.map fun file ↦ ⟨command, file, p.json, log || p.log⟩

end Invocation

/-- What the arguments ask for. -/
inductive Request
  | version
  | perform (i : Invocation)
deriving DecidableEq

namespace Request

/-- The short flag for the version counts whatever is written behind it in one word. -/
def asksVersion (argument : String) : Bool :=
  match argument.toList with
  | '-' :: 'V' :: _ => true
  | _ => argument = "--version"

/-- Arguments with the flag for a log given already or not. That flag may stand before the
command; a flag for the version stands before it or nowhere. -/
def ofArgumentsAfter? (log : Bool) : List String → Option Request
  | [] => none
  | word :: rest =>
    if asksVersion word then some .version
    else if word = "--log" ∧ log = false then ofArgumentsAfter? true rest
    else (Invocation.ofCommand? log word rest).map .perform

def ofArguments? (arguments : List String) : Option Request :=
  ofArgumentsAfter? false arguments

end Request

/-- What the system says when it refuses a file. -/
inductive SystemFault
  | missing
  | notDirectory
  | directory
  | nameTooLong
deriving DecidableEq

def SystemFault.message : SystemFault → String
  | .missing => "No such file or directory (os error 2)"
  | .notDirectory => "Not a directory (os error 20)"
  | .directory => "Is a directory (os error 21)"
  | .nameTooLong => "File name too long (os error 36)"

/-- Why a file is of no use: it does not open, cannot be read, or is no text, or there can be
no file for the log. -/
inductive FileFault
  | opening (name : String) (fault : SystemFault)
  | reading (name : String) (fault : SystemFault)
  | encoding (name : String) (fault : Utf8.Fault)
  | log (name : String) (fault : SystemFault)
deriving DecidableEq

namespace FileFault

def summary : FileFault → String
  | .opening name _ => "Failed to open file " ++ Quoted.text name
  | .reading name _ => "Failed to read file " ++ Quoted.text name
  | .encoding name _ => Quoted.text name ++ " is not valid UTF-8"
  | .log name _ => "Failed to create " ++ name

def cause : FileFault → String
  | .opening _ fault => fault.message
  | .reading _ fault => fault.message
  | .encoding _ fault => fault.message
  | .log _ fault => fault.message

def message (f : FileFault) : String :=
  "Error: " ++ f.summary ++ "\n\nCaused by:\n    " ++ f.cause ++ "\n"

/-- A directory opens, and only reading it fails. Any other fault shows on opening. -/
def ofSystem (name : String) (fault : SystemFault) : FileFault :=
  match fault with
  | .directory => .reading name .directory
  | other => .opening name other

end FileFault

/-- What a command leaves: its code, what it printed, and its messages. -/
structure Exit where
  code : Nat
  output : ByteArray
  errors : String

namespace Exit

def success : Nat := 0
def fileError : Nat := 1
def usageError : Nat := 2
def staticError : Nat := 65
def runtimeError : Nat := 70

/-- Each text on a line of its own. -/
def lines (texts : List String) : String := String.join (texts.map fun text ↦ text ++ "\n")

def rejected (diagnostics : List Diagnostic) : Exit :=
  ⟨staticError, .empty, lines [Diagnostic.messages diagnostics]⟩

def ofTokenize (json : Bool) (source : String) : Exit :=
  let faults := Scan.diagnostics source
  let write := fun (t : Token) ↦ if json then t.json else t.text
  ⟨if faults.isEmpty then success else staticError,
    (lines ((Scan.tokens source).map write)).toUTF8, lines (faults.map Diagnostic.message)⟩

def ofParse (source : String) : Exit :=
  match Scan.diagnostics source with
  | [] =>
    let read := Reading.ofTokens (Scan.tokens source)
    match read.diagnostics with
    | [] => ⟨success, (lines (read.statements.map Stmt.text)).toUTF8, ""⟩
    | faults => rejected faults
  | faults => rejected faults

/-- None if the fuel did not do. -/
def ofRun? (fuel : Nat) (clock : Clock) (source : String) : Option Exit :=
  match Run.ofSource fuel .unlimited clock source with
  | .rejected diagnostics => some (rejected diagnostics)
  | .outOfFuel => none
  | .failed cause printed => some ⟨runtimeError, printed, lines [cause.message]⟩
  | .finished printed => some ⟨success, printed, ""⟩

def ofSource? (fuel : Nat) (clock : Clock) (i : Invocation) (source : String) : Option Exit :=
  match i.command with
  | .tokenize => some (ofTokenize i.json source)
  | .parse => some (ofParse source)
  | .run => ofRun? fuel clock source

def ofFault (fault : FileFault) : Exit := ⟨fileError, .empty, fault.message⟩

/-- What a command answers for the bytes of its file, or for what the system says of it. -/
def ofFile? (fuel : Nat) (clock : Clock) (i : Invocation)
    (content : Except SystemFault (List UInt8)) : Option Exit :=
  match content with
  | .error fault => some (ofFault (.ofSystem i.file fault))
  | .ok bytes =>
    match Utf8.decode bytes with
    | .error fault => some (ofFault (.encoding i.file fault))
    | .ok source => ofSource? fuel clock i source

def logFile : String := "app.log"

/-- What a command answers if there can be no file for its log. Its own file is not looked
at then. -/
def ofLogFault (fault : SystemFault) : Exit := ofFault (.log logFile fault)

def version : Exit := ⟨success, "tjunkie 0.1.0\n".toUTF8, ""⟩

end Exit

end Lox
