import Lox.Number.Basic

/-!
Tokens: what the text of a program is read into. Literals carry their value in their kind.
-/

set_option autoImplicit false

namespace Lox

namespace Token

inductive Kind
  | leftParen | rightParen | leftBrace | rightBrace
  | comma | dot | minus | plus | semicolon | slash | star
  | bang | bangEqual | equal | equalEqual
  | greater | greaterEqual | less | lessEqual
  | identifier
  | string (contents : String)
  | number (value : Number)
  | and | class_ | else_ | false | fun_ | for_ | if_ | nil
  | or | print | return_ | super | this | true | var | while_
  | endOfInput
deriving DecidableEq

def keywords : List (String × Kind) :=
  [("and", .and), ("class", .class_), ("else", .else_), ("false", .false), ("fun", .fun_),
    ("for", .for_), ("if", .if_), ("nil", .nil), ("or", .or), ("print", .print),
    ("return", .return_), ("super", .super), ("this", .this), ("true", .true), ("var", .var),
    ("while", .while_)]

/-- Kind of a word: one of the keywords, or else an identifier. -/
def Kind.ofWord (word : String) : Kind := (keywords.lookup word).getD .identifier

def Kind.name : Kind → String
  | .leftParen => "LEFT_PAREN"
  | .rightParen => "RIGHT_PAREN"
  | .leftBrace => "LEFT_BRACE"
  | .rightBrace => "RIGHT_BRACE"
  | .comma => "COMMA"
  | .dot => "DOT"
  | .minus => "MINUS"
  | .plus => "PLUS"
  | .semicolon => "SEMICOLON"
  | .slash => "SLASH"
  | .star => "STAR"
  | .bang => "BANG"
  | .bangEqual => "BANG_EQUAL"
  | .equal => "EQUAL"
  | .equalEqual => "EQUAL_EQUAL"
  | .greater => "GREATER"
  | .greaterEqual => "GREATER_EQUAL"
  | .less => "LESS"
  | .lessEqual => "LESS_EQUAL"
  | .identifier => "IDENTIFIER"
  | .string _ => "STRING"
  | .number _ => "NUMBER"
  | .and => "AND"
  | .class_ => "CLASS"
  | .else_ => "ELSE"
  | .false => "FALSE"
  | .fun_ => "FUN"
  | .for_ => "FOR"
  | .if_ => "IF"
  | .nil => "NIL"
  | .or => "OR"
  | .print => "PRINT"
  | .return_ => "RETURN"
  | .super => "SUPER"
  | .this => "THIS"
  | .true => "TRUE"
  | .var => "VAR"
  | .while_ => "WHILE"
  | .endOfInput => "EOF"

end Token

/-- A token ends on its `line`; the lexeme is the text it was read from. -/
structure Token where
  kind : Token.Kind
  lexeme : String
  line : Nat
deriving DecidableEq

end Lox
