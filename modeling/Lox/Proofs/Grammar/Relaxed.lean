import Lox.Proofs.Grammar.CompleteExpressions
import Lox.Proofs.Grammar.Ebnf

/-!
The grammar with a relaxed rule for assignments: any expression may stand before an equals sign.
What may stand there is judged after reading; so this is the grammar that the parser follows from
token to token. Its symbols are those of the documented grammar, one rule each, and a program is
what stands before the end of input.
-/

set_option autoImplicit false

namespace Lox.Grammar

open Ebnf

/-- Symbols of the grammar. -/
inductive Part
  | program
  | declaration
  | classDecl
  | funDecl
  | function
  | varDecl
  | statement
  | exprStmt
  | forStmt
  | ifStmt
  | printStmt
  | returnStmt
  | whileStmt
  | block
  | parameters
  | expression
  | assignment
  | level (k : Level)
  | unary
  | call
  | arguments
  | primary

/-- What the operators of a level stand between. -/
def Level.part : Level → Part
  | .disjunction => .level .conjunction
  | .conjunction => .level .equality
  | .equality => .level .comparison
  | .comparison => .level .term
  | .term => .level .factor
  | .factor => .unary

/-- A token that is an expression by itself. -/
def isAtom : Token.Kind → Bool
  | .number _ | .string _ | .true | .false | .nil | .this | .identifier => true
  | _ => false

def Level.isOperator (k : Level) (kind : Token.Kind) : Bool := decide (kind ∈ k.kinds)

def isSign (kind : Token.Kind) : Bool := decide (kind ∈ signs.map Prod.fst)

/-- A symbol on a right side. -/
def part (s : Part) : Ebnf Part := .symbol s

/-- The rules. -/
def relaxed : Part → Ebnf Part
  | .program => many (part .declaration)
  | .declaration =>
    part .classDecl + part .funDecl + part .varDecl + part .statement
  | .classDecl =>
    only .class_ * only .identifier * opt (only .less * only .identifier) *
      only .leftBrace * many (part .function) * only .rightBrace
  | .funDecl => only .fun_ * part .function
  | .function =>
    only .identifier * only .leftParen * opt (part .parameters) * only .rightParen *
      part .block
  | .varDecl =>
    only .var * only .identifier * opt (only .equal * part .expression) * only .semicolon
  | .statement =>
    part .exprStmt + part .forStmt + part .ifStmt + part .printStmt +
      part .returnStmt + part .whileStmt + part .block
  | .exprStmt => part .expression * only .semicolon
  | .forStmt =>
    only .for_ * only .leftParen *
      (part .varDecl + part .exprStmt + only .semicolon) *
      opt (part .expression) * only .semicolon * opt (part .expression) *
      only .rightParen * part .statement
  | .ifStmt =>
    only .if_ * only .leftParen * part .expression * only .rightParen * part .statement *
      opt (only .else_ * part .statement)
  | .printStmt => only .print * part .expression * only .semicolon
  | .returnStmt => only .return_ * opt (part .expression) * only .semicolon
  | .whileStmt =>
    only .while_ * only .leftParen * part .expression * only .rightParen * part .statement
  | .block => only .leftBrace * many (part .declaration) * only .rightBrace
  | .parameters => only .identifier * many (only .comma * only .identifier)
  | .expression => part .assignment
  | .assignment => part (.level .disjunction) * opt (only .equal * part .assignment)
  | .level k => part k.part * many (token k.isOperator * part k.part)
  | .unary => token isSign * part .unary + part .call
  | .call =>
    part .primary * many (only .leftParen * opt (part .arguments) * only .rightParen +
      only .dot * only .identifier)
  | .arguments => part .expression * many (only .comma * part .expression)
  | .primary =>
    token isAtom + only .leftParen * part .expression * only .rightParen +
      only .super * only .dot * only .identifier

/-- The language of a right side. -/
def L (e : Ebnf Part) : Language Token := words relaxed e

theorem L_mul (a b : Ebnf Part) : L (a * b) = L a * L b := words_both a b

theorem L_add (a b : Ebnf Part) : L (a + b) = L a + L b := words_either a b

theorem L_opt (a : Ebnf Part) : L (opt a) = L a + 1 := words_opt a

theorem L_many (a : Ebnf Part) : L (many a) = 1 + L a * L (many a) := words_many a

theorem L_part (s : Part) : L (part s) = L (relaxed s) := words_symbol s

/-- Token lists that the relaxed grammar derives, the end of input apart. -/
def Sentence (w : List Token) : Prop := w ∈ L (part .program)

/-- Token lists that begin a sentence. -/
def Viable (w : List Token) : Prop := ∃ x, Sentence (w ++ x)

/-! ### First tokens -/

/-- The statement that a token begins. -/
def statementOf : Token.Kind → Part
  | .for_ => .forStmt
  | .if_ => .ifStmt
  | .print => .printStmt
  | .return_ => .returnStmt
  | .while_ => .whileStmt
  | .leftBrace => .block
  | _ => .exprStmt

/-- The declaration that a token begins. -/
def declarationOf : Token.Kind → Part
  | .class_ => .classDecl
  | .fun_ => .funDecl
  | .var => .varDecl
  | _ => .statement

def beginsStatementWord : Token.Kind → Bool
  | .for_ | .if_ | .print | .return_ | .while_ | .leftBrace => true
  | kind => beginsExpression kind

def beginsDeclaration : Token.Kind → Bool
  | .class_ | .fun_ | .var => true
  | kind => beginsStatementWord kind

/-- What the words of a symbol begin with. -/
def Part.first : Part → Option Token.Kind → Bool
  | .program, none => true
  | _, none => false
  | .program, some kind => beginsDeclaration kind
  | .declaration, some kind => beginsDeclaration kind
  | .classDecl, some kind => decide (kind = .class_)
  | .funDecl, some kind => decide (kind = .fun_)
  | .function, some kind => decide (kind = .identifier)
  | .varDecl, some kind => decide (kind = .var)
  | .statement, some kind => beginsStatementWord kind
  | .exprStmt, some kind => beginsExpression kind
  | .forStmt, some kind => decide (kind = .for_)
  | .ifStmt, some kind => decide (kind = .if_)
  | .printStmt, some kind => decide (kind = .print)
  | .returnStmt, some kind => decide (kind = .return_)
  | .whileStmt, some kind => decide (kind = .while_)
  | .block, some kind => decide (kind = .leftBrace)
  | .parameters, some kind => decide (kind = .identifier)
  | .call, some kind => beginsPrimary kind
  | .primary, some kind => beginsPrimary kind
  | _, some kind => beginsExpression kind

theorem first_rule (s : Part) (kind? : Option Token.Kind)
    (h : (relaxed s).begins Part.first kind? = true) : s.first kind? = true := by
  cases kind? with
  | none =>
    cases s with
    | level k => cases k <;> cases h
    | _ => first | rfl | cases h
  | some kind =>
    cases s with
    | level k => cases k <;> cases kind <;> first | rfl | cases h
    | _ => cases kind <;> first | rfl | cases h

/-! ### Every symbol has a word -/

/-- A language with a word. -/
def Live (X : Language Token) : Prop := ∃ x, x ∈ X

theorem Live.mul {X Y : Language Token} (hX : Live X) (hY : Live Y) : Live (X * Y) := by
  obtain ⟨x, hx⟩ := hX
  obtain ⟨y, hy⟩ := hY
  exact ⟨x ++ y, Language.append_mem_mul hx hy⟩

theorem Live.left {X : Language Token} (hX : Live X) (Y : Language Token) : Live (X + Y) := by
  obtain ⟨x, hx⟩ := hX
  exact ⟨x, .inl hx⟩

theorem Live.right (X : Language Token) {Y : Language Token} (hY : Live Y) : Live (X + Y) := by
  obtain ⟨y, hy⟩ := hY
  exact ⟨y, .inr hy⟩

theorem live_one : Live 1 := ⟨[], Language.nil_mem_one⟩

theorem live_only (kind : Token.Kind) : Live (L (only kind)) :=
  ⟨[⟨kind, "", 0⟩], mem_words_token.2 ⟨⟨kind, "", 0⟩, decide_eq_true rfl, rfl⟩⟩

theorem live_many (e : Ebnf Part) : Live (L (many e)) := by
  rw [L_many]
  exact live_one.left _

theorem live_opt (e : Ebnf Part) : Live (L (opt e)) := by
  rw [L_opt]
  exact live_one.right _

theorem live_both {a b : Ebnf Part} (ha : Live (L a)) (hb : Live (L b)) : Live (L (a * b)) := by
  rw [L_mul]
  exact ha.mul hb

theorem live_part {s : Part} (h : Live (L (relaxed s))) : Live (L (part s)) := by
  rw [L_part]
  exact h

theorem live_level {k : Level} (h : Live (L (part k.part))) : Live (L (part (.level k))) :=
  live_part (live_both h (live_many _))

theorem live_primary : Live (L (part .primary)) := by
  have hatom : Live (L (token isAtom)) :=
    ⟨[⟨.nil, "", 0⟩], mem_words_token.2 ⟨⟨.nil, "", 0⟩, rfl, rfl⟩⟩
  apply live_part
  rw [relaxed, L_add, L_add, add_assoc]
  exact hatom.left _

theorem live_unary : Live (L (part .unary)) := by
  have hcall : Live (L (part .call)) := live_part (live_both live_primary (live_many _))
  apply live_part
  rw [relaxed, L_add]
  exact hcall.right _

theorem live_operand (k : Level) : Live (L (part k.part)) := by
  have hfactor := live_level (k := .factor) live_unary
  have hterm := live_level (k := .term) hfactor
  have hcomparison := live_level (k := .comparison) hterm
  have hequality := live_level (k := .equality) hcomparison
  have hconjunction := live_level (k := .conjunction) hequality
  cases k with
  | disjunction => exact hconjunction
  | conjunction => exact hequality
  | equality => exact hcomparison
  | comparison => exact hterm
  | term => exact hfactor
  | factor => exact live_unary

theorem live_assignment : Live (L (part .assignment)) :=
  live_part (live_both (live_level (live_operand .disjunction)) (live_opt _))

theorem live_expression : Live (L (part .expression)) := live_part live_assignment

theorem live_block : Live (L (part .block)) :=
  live_part (live_both (live_both (live_only _) (live_many _)) (live_only _))

theorem live_statement : Live (L (part .statement)) := by
  apply live_part
  rw [relaxed, L_add]
  exact live_block.right _

end Lox.Grammar
