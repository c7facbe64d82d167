import Lox.Quoted.ExtendingMarks
import Lox.Quoted.Unprintable

/-!
Text between quotes, as messages show the name of a file. What could not be seen or would
change its neighbour stands there by its code.
-/

set_option autoImplicit false

namespace Lox

namespace Quoted

/-- Characters with a letter of their own behind a backslash. -/
def letter? (c : Char) : Option Char :=
  match c with
  | '"' => some '"'
  | '\\' => some '\\'
  | '\n' => some 'n'
  | '\r' => some 'r'
  | '\t' => some 't'
  | _ => none

/-- Whether a character is shown by its code. -/
def needsCode (c : Char) : Bool :=
  CodeRange.anyContains extendingMarks c || CodeRange.anyContains unprintable c

/-- The code of a character, in hexadecimal digits. -/
def code (c : Char) : List Char :=
  ['\\', 'u', '\x7b'] ++ Nat.toDigits 16 c.toNat ++ ['\x7d']

def char (c : Char) : List Char :=
  match letter? c with
  | some letter => ['\\', letter]
  | none => if needsCode c then code c else [c]

def text (s : String) : String :=
  String.ofList ('"' :: s.toList.flatMap char ++ ['"'])

end Quoted

end Lox
