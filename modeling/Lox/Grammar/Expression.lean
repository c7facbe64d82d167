import Lox.Grammar.Reply

/-!
Expressions of the grammar, one rule a level. Each rule is a function of the rule for whole
expressions on shorter texts, which is where parentheses, arguments and the right side of an
assignment lead back to; the last definition ties the two together.
-/

set_option autoImplicit false

namespace Lox

namespace Grammar

/-- How a token joins the expressions on its two sides, at the levels that take it. -/
abbrev Joiner := Token → Option (Expr → Expr → Expr)

def disjunctionJoiner : Joiner := fun t ↦
  match t.kind with
  | .or => some (.logical .or t.line)
  | _ => none

def conjunctionJoiner : Joiner := fun t ↦
  match t.kind with
  | .and => some (.logical .and t.line)
  | _ => none

def equalityJoiner : Joiner := fun t ↦
  match t.kind with
  | .bangEqual => some (.binary .notEqual t.line)
  | .equalEqual => some (.binary .equal t.line)
  | _ => none

def comparisonJoiner : Joiner := fun t ↦
  match t.kind with
  | .greater => some (.binary .greater t.line)
  | .greaterEqual => some (.binary .greaterEqual t.line)
  | .less => some (.binary .less t.line)
  | .lessEqual => some (.binary .lessEqual t.line)
  | _ => none

def termJoiner : Joiner := fun t ↦
  match t.kind with
  | .minus => some (.binary .subtract t.line)
  | .plus => some (.binary .add t.line)
  | _ => none

def factorJoiner : Joiner := fun t ↦
  match t.kind with
  | .slash => some (.binary .divide t.line)
  | .star => some (.binary .multiply t.line)
  | _ => none

def unaryOp? (t : Token) : Option UnaryOp :=
  match t.kind with
  | .bang => some .not
  | .minus => some .negate
  | _ => none

/-- Operators and operands that follow the expression `left`, taken from left to right. -/
def chainFrom (joiner : Joiner) {n size : Nat} (operand : UpTo n Expr) (left : Expr)
    (c : Cursor) (within : c.size ≤ n) (less : c.size < size) : Reply size Expr :=
  match c.rest.head?.bind joiner with
  | none => .done left c less
  | some join =>
    (operand c.skip (c.skip_le within)).andThen (c.skip_lt less) fun right after shorter less ↦
      chainFrom joiner operand (join left right) after (Cursor.le_of_lt_skip shorter within) less
termination_by c.size
decreasing_by exact Cursor.lt_of_lt_skip shorter

/-- A level of operators that group from the left. -/
def chain (joiner : Joiner) {n : Nat} (operand : UpTo n Expr) : UpTo n Expr :=
  fun c within ↦
    (operand c within).bind fun left after less ↦
      chainFrom joiner operand left after (Cursor.le_of_lt_of_le less within) less

/-- One expression or more, with commas between them. -/
def expressions {n : Nat} (expression : Below n Expr) (c : Cursor) (less : c.size < n) :
    Reply c.size (List Expr) :=
  (expression c less).bind fun first next shorter ↦
    if next.sees .comma then
      ((expressions expression next.skip (Cursor.skip_lt_of_lt shorter less)).inside
        (Cursor.skip_lt_size shorter)).map fun others ↦ first :: others
    else .done [first] next shorter
termination_by c.size
decreasing_by exact Cursor.skip_lt_size shorter

/-- Arguments of a call after the opening parenthesis, with the line of the closing one. -/
def arguments {n : Nat} (expression : Below n Expr) (c : Cursor) (less : c.size < n) :
    Reply c.size (List Expr × Nat) :=
  if c.sees .rightParen then
    (c.expect .rightParen .argumentsClosing).map fun t ↦ ([], t.line)
  else
    (expressions expression c less).bind fun values next shorter ↦
      ((next.expect .rightParen .argumentsClosing).inside shorter).map fun t ↦ (values, t.line)

/-- A method of the extended class, after the keyword. -/
def superAccess (line : Nat) (c : Cursor) : Reply c.size Expr :=
  (c.expect .dot .superDot).bind fun _ next shorter ↦
    (next.expectName .superMethodName).andThen shorter fun method after _ shorter ↦
      .done (.super after.nextId line method) after.draw shorter

/-- An expression in parentheses, after the opening one. -/
def grouping {n : Nat} (expression : Below n Expr) (c : Cursor) (less : c.size < n) :
    Reply c.size Expr :=
  (expression c less).bind fun inner next shorter ↦
    ((next.expect .rightParen .groupingClosing).inside shorter).map fun _ ↦ .grouping inner

def primary {n : Nat} (expression : Below n Expr) : UpTo n Expr := fun c within ↦
  match e : c.rest with
  | [] => c.fail .expression
  | t :: _ =>
    have shorter : c.skip.size < c.size := Cursor.size_skip_of_cons e
    match t.kind with
    | .false => .done (.literal .false) c.skip shorter
    | .true => .done (.literal .true) c.skip shorter
    | .nil => .done (.literal .nil) c.skip shorter
    | .number value => .done (.literal (.number value)) c.skip shorter
    | .string value => .done (.literal (.string value)) c.skip shorter
    | .identifier => .done (.var c.nextId ⟨t.lexeme, t.line⟩) c.skip.draw shorter
    | .this => .done (.this c.nextId t.line) c.skip.draw shorter
    | .super => (superAccess t.line c.skip).inside shorter
    | .leftParen =>
      (grouping expression c.skip (Cursor.skip_lt_of_cons e within)).inside shorter
    | _ => c.fail .expression

/-- Calls and properties that follow the expression `target`. -/
def suffixesFrom {n size : Nat} (expression : Below n Expr) (target : Expr) (c : Cursor)
    (within : c.size ≤ n) (less : c.size < size) : Reply size Expr :=
  if call : c.sees .leftParen then
    (arguments expression c.skip (Cursor.skip_lt_of_le call within)).andThen (c.skip_lt less)
      fun values after shorter less ↦
        suffixesFrom expression (.call target values.2 values.1) after
          (Cursor.le_of_lt_skip shorter within) less
  else if c.sees .dot then
    (c.skip.expectName .propertyName).andThen (c.skip_lt less) fun name after shorter less ↦
      suffixesFrom expression (.get target name) after (Cursor.le_of_lt_skip shorter within) less
  else .done target c less
termination_by c.size
decreasing_by all_goals exact Cursor.lt_of_lt_skip shorter

def call {n : Nat} (expression : Below n Expr) : UpTo n Expr := fun c within ↦
  (primary expression c within).bind fun target next shorter ↦
    suffixesFrom expression target next (Cursor.le_of_lt_of_le shorter within) shorter

def unary {n : Nat} (expression : Below n Expr) (c : Cursor) (within : c.size ≤ n) :
    Reply c.size Expr :=
  match e : c.rest with
  | [] => call expression c within
  | t :: _ =>
    match unaryOp? t with
    | none => call expression c within
    | some op =>
      ((unary expression c.skip (c.skip_le within)).inside (Cursor.size_skip_of_cons e)).map
        (.unary op t.line)
termination_by c.size
decreasing_by exact Cursor.size_skip_of_cons e

def factor {n : Nat} (expression : Below n Expr) : UpTo n Expr :=
  chain factorJoiner (unary expression)

def term {n : Nat} (expression : Below n Expr) : UpTo n Expr :=
  chain termJoiner (factor expression)

def comparison {n : Nat} (expression : Below n Expr) : UpTo n Expr :=
  chain comparisonJoiner (term expression)

def equality {n : Nat} (expression : Below n Expr) : UpTo n Expr :=
  chain equalityJoiner (comparison expression)

def conjunction {n : Nat} (expression : Below n Expr) : UpTo n Expr :=
  chain conjunctionJoiner (equality expression)

def disjunction {n : Nat} (expression : Below n Expr) : UpTo n Expr :=
  chain disjunctionJoiner (conjunction expression)

/-- The assignment of a value that has been read to `target`. Any other target is reported
at the equals sign and stands alone, without its value; reading goes on. -/
def assignTo {n : Nat} (target : Expr) (equals : Diagnostic) (value : Expr) (c : Cursor)
    (less : c.size < n) : Reply n Expr :=
  match target with
  | .var _ name => .done (.assign c.nextId name value) c.draw less
  | .get object name => .done (.set object name value) c less
  | other => .done other (c.report equals) less

def assignment {n : Nat} (expression : Below n Expr) : UpTo n Expr := fun c within ↦
  (disjunction expression c within).bind fun target next shorter ↦
    if next.sees .equal then
      (expression next.skip (Cursor.skip_lt_of_lt_of_le shorter within)).andThen
        (Cursor.skip_lt_size shorter) fun value after _ shorter ↦
          assignTo target (next.complaint .assignmentTarget) value after shorter
    else .done target next shorter

def expression (c : Cursor) : Reply c.size Expr :=
  assignment (n := c.size) (fun shorter _ ↦ expression shorter) c c.le_self
termination_by c.size

end Grammar

end Lox
