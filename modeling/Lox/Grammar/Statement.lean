import Lox.Grammar.Expression

/-!
Statements and declarations of the grammar. An error inside a declaration is reported and
reading resumes at the next likely start of a statement, so one error does not hide the next.
-/

set_option autoImplicit false

namespace Lox

namespace Grammar

/-- Tokens that begin a statement wherever they stand. -/
def beginsStatement (t : Token) : Bool :=
  match t.kind with
  | .class_ | .fun_ | .var | .for_ | .if_ | .while_ | .print | .return_ => true
  | _ => false

/-- Tokens from the next likely start of a statement on: after a semicolon, or at a token
that begins one. -/
def resumeAfter (previous : Token) : List Token → List Token
  | [] => []
  | t :: rest =>
    if previous.kind = .semicolon ∨ beginsStatement t = true then t :: rest
    else resumeAfter t rest

/-- The token at fault is always dropped. -/
def resume : List Token → List Token
  | [] => []
  | t :: rest => resumeAfter t rest

theorem length_resumeAfter (previous : Token) (tokens : List Token) :
    (resumeAfter previous tokens).length ≤ tokens.length := by
  induction tokens generalizing previous with
  | nil => simp [resumeAfter]
  | cons t rest ih =>
    unfold resumeAfter
    split
    · simp
    · exact Nat.le_succ_of_le (ih t)

theorem length_resume (tokens : List Token) : (resume tokens).length ≤ tokens.length - 1 := by
  cases tokens with
  | nil => simp [resume]
  | cons t rest => exact length_resumeAfter t rest

/-- Outcome of a declaration: what was read, if it was sound, and where to go on. -/
structure Step (size : Nat) (α : Type) where
  value : Option α
  next : Cursor
  shorter : next.size < size

/-- The cursor where reading goes on after an error at this one. -/
def afterError (c : Cursor) (cause : Diagnostic) : Cursor :=
  { c.report cause with rest := resume c.rest }

theorem size_afterError {c : Cursor} {cause : Diagnostic} {size : Nat} (le : c.size ≤ size)
    (pos : 0 < size) : (afterError c cause).size < size := by
  have dropped := length_resume c.rest
  simp only [afterError, Cursor.size] at *
  omega

/-- Reports a failure and goes on behind it. -/
def recover {α : Type} {size : Nat} (r : Reply size α) (pos : 0 < size) : Step size α :=
  match r with
  | .done value next shorter => ⟨some value, next, shorter⟩
  | .failed cause next notLonger =>
    ⟨none, afterError next cause, size_afterError notLonger pos⟩

/-- The rules of statements and of blocks after their opening brace, for shorter texts. -/
structure Rules (n : Nat) where
  statement : Below n Stmt
  block : Below n (List Stmt)

/-- An expression up to a closing token, or the closing token alone. -/
def optionalUntil (kind : Token.Kind) (cause : GrammarError) (c : Cursor) :
    Reply c.size (Option Expr) :=
  if closing : c.sees kind then .done none c.skip (Cursor.size_skip closing)
  else
    (expression c).bind fun value next shorter ↦
      ((next.expect kind cause).inside shorter).map fun _ ↦ some value

/-- An expression and the token after it. -/
def expressionUntil (kind : Token.Kind) (cause : GrammarError) (c : Cursor) :
    Reply c.size Expr :=
  (expression c).bind fun value next shorter ↦
    ((next.expect kind cause).inside shorter).map fun _ ↦ value

def expressionStatement (c : Cursor) : Reply c.size Stmt :=
  (expressionUntil .semicolon .expressionEnd c).map .expression

def printStatement (c : Cursor) : Reply c.size Stmt :=
  (expressionUntil .semicolon .printEnd c).map .print

def returnStatement (line : Nat) (c : Cursor) : Reply c.size Stmt :=
  (optionalUntil .semicolon .returnEnd c).map (.return_ line)

/-- A condition in parentheses. -/
def condition (opening : GrammarError) (c : Cursor) : Reply c.size Expr :=
  (c.expect .leftParen opening).bind fun _ next shorter ↦
    (expressionUntil .rightParen .conditionClosing next).inside shorter

def varDeclaration (c : Cursor) : Reply c.size Stmt :=
  (c.expectName .variableName).bind fun name next shorter ↦
    if next.sees .equal then
      ((expressionUntil .semicolon .variableEnd next.skip).inside (Cursor.skip_lt_size shorter)).map
        fun value ↦ .var name (some value)
    else
      ((next.expect .semicolon .variableEnd).inside shorter).map fun _ ↦ .var name none

/-- One name or more, with commas between them. -/
def names (c : Cursor) : Reply c.size (List Name) :=
  (c.expectName .parameterName).bind fun first next shorter ↦
    if next.sees .comma then
      ((names next.skip).inside (Cursor.skip_lt_size shorter)).map fun others ↦ first :: others
    else .done [first] next shorter
termination_by c.size
decreasing_by exact Cursor.skip_lt_size shorter

/-- Parameters after the opening parenthesis, up to the closing one. -/
def parameters (c : Cursor) : Reply c.size (List Name) :=
  if closing : c.sees .rightParen then .done [] c.skip (Cursor.size_skip closing)
  else
    (names c).bind fun values next shorter ↦
      ((next.expect .rightParen .parametersClosing).inside shorter).map fun _ ↦ values

/-- Name, parameters and body of a function or a method. -/
def routine {n : Nat} (rules : Rules n) (kind : RoutineKind) : UpTo n Routine :=
  fun c within ↦
    (c.expectName (.routineName kind)).bind fun name c less ↦
      (c.expect .leftParen (.routineParen kind)).andThen less fun _ c _ less ↦
        (parameters c).andThen less fun params c _ less ↦
          (c.expect .leftBrace (.routineBody kind)).andThen less fun _ c _ less ↦
            ((rules.block c (Cursor.lt_of_lt_of_le less within)).inside less).map fun body ↦
              ⟨name, params, body⟩

/-- Methods up to the closing brace of their class. -/
def methods {n : Nat} (rules : Rules n) (c : Cursor) (within : c.size ≤ n) :
    Reply c.size (List Routine) :=
  if c.sees .rightBrace = true ∨ c.size = 0 then
    (c.expect .rightBrace .classClosing).map fun _ ↦ []
  else
    (routine rules .method c within).bind fun first next shorter ↦
      ((methods rules next (Cursor.le_of_lt_of_le shorter within)).inside shorter).map
        fun others ↦ first :: others
termination_by c.size
decreasing_by exact shorter

/-- The part of a class from its opening brace on. -/
def classBody {n : Nat} (rules : Rules n) (name : Name) (superclass : Option Superclass) :
    Below n Stmt := fun c less ↦
  (c.expect .leftBrace .classOpening).bind fun _ next shorter ↦
    ((methods rules next (Cursor.le_of_lt (Cursor.lt_trans shorter less))).inside shorter).map
      fun routines ↦ .class_ name superclass routines

/-- A class after its keyword. It extends another one if a less-than sign follows the name. -/
def classDeclaration {n : Nat} (rules : Rules n) : UpTo n Stmt := fun c within ↦
  (c.expectName .className).bind fun name next shorter ↦
    if next.sees .less then
      (next.skip.expectName .superclassName).andThen (Cursor.skip_lt_size shorter)
        fun parent last _ shorter ↦
          (classBody rules name (some ⟨last.nextId, parent⟩) last.draw
            (Cursor.lt_of_lt_of_le shorter within)).inside shorter
    else (classBody rules name none next (Cursor.lt_of_lt_of_le shorter within)).inside shorter

def ifStatement {n : Nat} (rules : Rules n) : UpTo n Stmt := fun c within ↦
  (condition .ifOpening c).bind fun test next less ↦
    (rules.statement next (Cursor.lt_of_lt_of_le less within)).andThen less
      fun consequent last _ less ↦
        if last.sees .else_ then
          ((rules.statement last.skip (Cursor.skip_lt_of_lt_of_le less within)).inside
            (Cursor.skip_lt_size less)).map fun alternative ↦ .ifElse test consequent alternative
        else .done (.ifThen test consequent) last less

def whileStatement {n : Nat} (rules : Rules n) : UpTo n Stmt := fun c within ↦
  (condition .whileOpening c).bind fun test next shorter ↦
    ((rules.statement next (Cursor.lt_of_lt_of_le shorter within)).inside shorter).map
      fun body ↦ .loop test body

/-- First clause of a for statement, up to its semicolon. -/
def forInitializer (c : Cursor) : Reply c.size (Option Stmt) :=
  if semicolon : c.sees .semicolon then .done none c.skip (Cursor.size_skip semicolon)
  else if var : c.sees .var then
    ((varDeclaration c.skip).inside (Cursor.size_skip var)).map some
  else (expressionStatement c).map some

/-- A for statement is a loop that ends each round with the increment, in a block that begins
with the initializer. An absent condition is true, and an absent clause leaves no block. -/
def forLoop (initial : Option Stmt) (test increment : Option Expr) (body : Stmt) : Stmt :=
  let round :=
    match increment with
    | some e => .block [body, .expression e]
    | none => body
  let loop := .loop (test.getD (.literal .true)) round
  match initial with
  | some first => .block [first, loop]
  | none => loop

def forStatement {n : Nat} (rules : Rules n) : UpTo n Stmt := fun c within ↦
  (c.expect .leftParen .forOpening).bind fun _ c less ↦
    (forInitializer c).andThen less fun initial c _ less ↦
      (optionalUntil .semicolon .loopConditionEnd c).andThen less fun test c _ less ↦
        (optionalUntil .rightParen .forClosing c).andThen less fun increment c _ less ↦
          ((rules.statement c (Cursor.lt_of_lt_of_le less within)).inside less).map fun body ↦
            forLoop initial test increment body

/-- A statement that a keyword or a brace begins, from the token after it on. -/
def statementAfter? {n : Nat} (rules : Rules n) (t : Token) (c : Cursor) (less : c.size < n) :
    Option (Reply c.size Stmt) :=
  match t.kind with
  | .for_ => some (forStatement rules c (Cursor.le_of_lt less))
  | .if_ => some (ifStatement rules c (Cursor.le_of_lt less))
  | .while_ => some (whileStatement rules c (Cursor.le_of_lt less))
  | .return_ => some (returnStatement t.line c)
  | .leftBrace => some ((rules.block c less).map .block)
  | .print => some (printStatement c)
  | _ => none

def statementWith {n : Nat} (rules : Rules n) : UpTo n Stmt := fun c within ↦
  match e : c.rest with
  | [] => expressionStatement c
  | t :: _ =>
    have shorter : c.skip.size < c.size := Cursor.size_skip_of_cons e
    match statementAfter? rules t c.skip (Cursor.skip_lt_of_cons e within) with
    | some reply => reply.inside shorter
    | none => expressionStatement c

/-- A declaration that a keyword begins, from the token after it on. -/
def declarationAfter? {n : Nat} (rules : Rules n) (t : Token) (c : Cursor) (less : c.size < n) :
    Option (Reply c.size Stmt) :=
  match t.kind with
  | .class_ => some (classDeclaration rules c (Cursor.le_of_lt less))
  | .fun_ => some ((routine rules .function c (Cursor.le_of_lt less)).map .function)
  | .var => some (varDeclaration c)
  | _ => none

def declarationWith {n : Nat} (rules : Rules n) : UpTo n Stmt := fun c within ↦
  match e : c.rest with
  | [] => statementWith rules c within
  | t :: _ =>
    have shorter : c.skip.size < c.size := Cursor.size_skip_of_cons e
    match declarationAfter? rules t c.skip (Cursor.skip_lt_of_cons e within) with
    | some reply => reply.inside shorter
    | none => statementWith rules c within

/-- Declarations up to the closing brace of their block. -/
def blockWith {n : Nat} (rules : Rules n) (c : Cursor) (within : c.size ≤ n) :
    Reply c.size (List Stmt) :=
  if stop : c.sees .rightBrace = true ∨ c.size = 0 then
    (c.expect .rightBrace .blockClosing).map fun _ ↦ []
  else
    let step := recover (declarationWith rules c within) (Cursor.size_pos stop)
    ((blockWith rules step.next (Cursor.le_of_lt_of_le step.shorter within)).inside
      step.shorter).map fun others ↦ step.value.toList ++ others
termination_by c.size
decreasing_by exact (recover (declarationWith rules c within) (Cursor.size_pos stop)).shorter

/-- The rules for any length: each is made from the rules for what is shorter. -/
def rules (n : Nat) : Rules n :=
  ⟨fun c _ ↦ statementWith (rules c.size) c c.le_self,
    fun c _ ↦ blockWith (rules c.size) c c.le_self⟩
termination_by n

def declaration (c : Cursor) : Reply c.size Stmt :=
  declarationWith (rules c.size) c c.le_self

/-- Declarations up to the end of input, and the cursor there. -/
def declarations (c : Cursor) : List Stmt × Cursor :=
  if h : c.size = 0 then ([], c)
  else
    let step := recover (declaration c) (Nat.pos_of_ne_zero h)
    let later := declarations step.next
    (step.value.toList ++ later.1, later.2)
termination_by c.size
decreasing_by exact (recover (declaration c) (Nat.pos_of_ne_zero h)).shorter

theorem declarations_none {c : Cursor} (h : c.rest = []) : declarations c = ([], c) := by
  rw [declarations, dif_pos (List.length_eq_zero_iff.2 h)]

theorem declarations_some {c : Cursor} (h : ¬c.size = 0) :
    declarations c =
      ((recover (declaration c) (Nat.pos_of_ne_zero h)).value.toList ++
          (declarations (recover (declaration c) (Nat.pos_of_ne_zero h)).next).1,
        (declarations (recover (declaration c) (Nat.pos_of_ne_zero h)).next).2) := by
  rw [declarations, dif_neg h]

end Grammar

/-- A program as read: the statements that are sound, the errors in the order found, and how
many identities were drawn. -/
structure Reading where
  statements : List Stmt
  diagnostics : List Diagnostic
  idCount : Nat

def Reading.ofTokens (tokens : List Token) : Reading :=
  let read := Grammar.declarations (Cursor.ofTokens tokens)
  ⟨read.1, read.2.reports, read.2.nextId⟩

end Lox
