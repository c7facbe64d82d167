import Lox.Token.Basic

/-!
Faults that a program shows before it runs. Each is a cause with a place; the wording is in
the message functions.
-/

set_option autoImplicit false

namespace Lox

inductive LexicalError
  | unexpectedCharacter (c : Char)
  | unterminatedString
deriving DecidableEq

/-- What the grammar calls a named body with parameters. -/
inductive RoutineKind
  | function
  | method
deriving DecidableEq

inductive GrammarError
  | className
  | superclassName
  | classOpening
  | classClosing
  | routineName (kind : RoutineKind)
  | routineParen (kind : RoutineKind)
  | parameterName
  | parametersClosing
  | routineBody (kind : RoutineKind)
  | variableName
  | variableEnd
  | forOpening
  | loopConditionEnd
  | forClosing
  | printEnd
  | expressionEnd
  | ifOpening
  | whileOpening
  | conditionClosing
  | returnEnd
  | blockClosing
  | assignmentTarget
  | propertyName
  | argumentsClosing
  | superDot
  | superMethodName
  | groupingClosing
  | expression
deriving DecidableEq

inductive ResolutionError
  | returnOutsideFunction
  | valueFromInitializer
  | selfInheritance
  | ownInitializer
  | thisOutsideClass
  | superOutsideClass
  | superWithoutSuperclass
deriving DecidableEq

/-- Where the grammar failed: at a token, or where the tokens end. -/
inductive Place
  | token (lexeme : String)
  | endOfInput
deriving DecidableEq

inductive Diagnostic
  | lexical (line : Nat) (cause : LexicalError)
  | grammar (line : Nat) (place : Place) (cause : GrammarError)
  | resolution (line : Nat) (cause : ResolutionError)
deriving DecidableEq

def LexicalError.message : LexicalError → String
  | .unexpectedCharacter c => "Unexpected character: " ++ String.singleton c
  | .unterminatedString => "Unterminated string."

def RoutineKind.name : RoutineKind → String
  | .function => "function"
  | .method => "method"

def GrammarError.message : GrammarError → String
  | .className => "Expected class name"
  | .superclassName => "Expected superclass name"
  | .classOpening => "Expected '\x7b' before class body"
  | .classClosing => "Expected '\x7d' after class body"
  | .routineName kind => "Expected " ++ kind.name ++ " name"
  | .routineParen kind => "Expected '(' after " ++ kind.name ++ " name"
  | .parameterName => "Expected parameter name"
  | .parametersClosing => "Expected ')' after parameters"
  | .routineBody kind => "Expected '\x7b' before " ++ kind.name ++ " body"
  | .variableName => "Expected variable name"
  | .variableEnd => "Expected ';' after variable declaration"
  | .forOpening => "Expected '(' after 'for'"
  | .loopConditionEnd => "Expected ';' after loop condition"
  | .forClosing => "Expected ')' after for clauses"
  | .printEnd => "Expected ';' after value"
  | .expressionEnd => "Expected ';' after expression"
  | .ifOpening => "Expected '(' after 'if'"
  | .whileOpening => "Expected '(' after 'while'"
  | .conditionClosing => "Expected ')' after condition"
  | .returnEnd => "Expected ';' after return value"
  | .blockClosing => "Expected '\x7d' after block"
  | .assignmentTarget => "Invalid assignment target."
  | .propertyName => "Expected property name after '.'"
  | .argumentsClosing => "Expected ')' after arguments"
  | .superDot => "Expected '.' after 'super'"
  | .superMethodName => "Expected superclass method name"
  | .groupingClosing => "Expected ')' after expression"
  | .expression => "Expected expression"

def ResolutionError.message : ResolutionError → String
  | .returnOutsideFunction => "Can't return from top-level code."
  | .valueFromInitializer => "Can't return a value from an initializer."
  | .selfInheritance => "A class can't inherit from itself."
  | .ownInitializer => "Can't read local variable in its own initializer."
  | .thisOutsideClass => "Can't use 'this' outside of a class."
  | .superOutsideClass => "Can't use 'super' outside of a class."
  | .superWithoutSuperclass => "Can't use 'super' in a class with no superclass."

def Place.text : Place → String
  | .token lexeme => " at '" ++ lexeme ++ "'"
  | .endOfInput => " at end"

def Token.place (t : Token) : Place :=
  if t.kind = .endOfInput then .endOfInput else .token t.lexeme

namespace Diagnostic

def line : Diagnostic → Nat
  | .lexical line _ => line
  | .grammar line _ _ => line
  | .resolution line _ => line

def onLine (line : Nat) : String := "[line " ++ toString line ++ "] "

def message : Diagnostic → String
  | .lexical line cause => onLine line ++ "Error: " ++ cause.message
  | .grammar line place cause => onLine line ++ "Error" ++ place.text ++ ": " ++ cause.message
  | .resolution line cause => onLine line ++ "Error: " ++ cause.message

/-- One message a line, in the order given. -/
def messages (diagnostics : List Diagnostic) : String :=
  "\n".intercalate (diagnostics.map message)

end Diagnostic

end Lox
