import Lox.Number.Text
import Lox.Token.Basic

/-!
Written forms of a token: the line that lists it, its place in a message, and its JSON form.
-/

set_option autoImplicit false

namespace Lox

/-- Text of a JSON string. Quotes, backslashes and control characters are escaped; all other
characters stand for themselves. -/
def jsonChar (c : Char) : List Char :=
  if c = '"' then ['\\', '"']
  else if c = '\\' then ['\\', '\\']
  else if c = '\n' then ['\\', 'n']
  else if c = '\t' then ['\\', 't']
  else if c = '\r' then ['\\', 'r']
  else if c.toNat = 8 then ['\\', 'b']
  else if c.toNat = 12 then ['\\', 'f']
  else if c.toNat < 32 then
    ['\\', 'u', '0', '0', Nat.digitChar (c.toNat / 16), Nat.digitChar (c.toNat % 16)]
  else [c]

def jsonString (s : String) : String :=
  String.ofList ('"' :: s.toList.flatMap jsonChar ++ ['"'])

namespace Token

/-- Value of a literal, as a listing shows it. -/
def literalText (t : Token) : String :=
  match t.kind with
  | .string contents => contents
  | .number value => value.tokenText
  | _ => "null"

def text (t : Token) : String := t.kind.name ++ " " ++ t.lexeme ++ " " ++ t.literalText

def kindJson (t : Token) : String :=
  match t.kind with
  | .string contents => "\x7b" ++ jsonString t.kind.name ++ ":" ++ jsonString contents ++ "\x7d"
  | .number value => "\x7b" ++ jsonString t.kind.name ++ ":" ++ value.jsonText ++ "\x7d"
  | kind => jsonString kind.name

def json (t : Token) : String :=
  "\x7b\"token_type\":" ++ t.kindJson ++ ",\"lexeme\":" ++ jsonString t.lexeme ++
    ",\"line\":" ++ toString t.line ++ "\x7d"

end Token

end Lox
