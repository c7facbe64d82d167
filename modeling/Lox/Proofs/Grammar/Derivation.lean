import Lox.Token.Basic
import Lox.Tree.Basic

/-!
The grammar, apart from how it is read: which words of tokens each symbol derives, and the tree
of each derivation. Trees of the grammar give no identities to the uses of names; all of them are
zero. A derivation may give an `else` to any `if` that it could belong to, unless it is a `nearest`
one; those are known by what a statement inside of another one leaves open.
-/

set_option autoImplicit false

namespace Lox.Grammar

/-! ### Symbols and operators -/

/-- Levels of operators that group from the left, the loosest first. -/
inductive Level
  | disjunction
  | conjunction
  | equality
  | comparison
  | term
  | factor

/-- The operators of a level, each with the tree it makes. -/
def Level.operators : Level → List (Token.Kind × (Nat → Expr → Expr → Expr))
  | .disjunction => [(.or, .logical .or)]
  | .conjunction => [(.and, .logical .and)]
  | .equality => [(.bangEqual, .binary .notEqual), (.equalEqual, .binary .equal)]
  | .comparison =>
    [(.greater, .binary .greater), (.greaterEqual, .binary .greaterEqual), (.less, .binary .less),
      (.lessEqual, .binary .lessEqual)]
  | .term => [(.minus, .binary .subtract), (.plus, .binary .add)]
  | .factor => [(.slash, .binary .divide), (.star, .binary .multiply)]

def signs : List (Token.Kind × UnaryOp) := [(.bang, .not), (.minus, .negate)]

/-- The literal that a token stands for. -/
def literal? : Token.Kind → Option Literal
  | .number value => some (.number value)
  | .string value => some (.string value)
  | .true => some .true
  | .false => some .false
  | .nil => some .nil
  | _ => none

def nameOf (t : Token) : Name := ⟨t.lexeme, t.line⟩

/-! ### Expressions -/

/-- Symbols inside expressions, by the kind of tree that they derive. `further` is the repetition
of operators and operands after the expression on their left, and `suffixes` that of calls and
properties. -/
inductive ExprSymbol : Type → Type
  | expression : ExprSymbol Expr
  | level (k : Level) : ExprSymbol Expr
  | further (k : Level) (left : Expr) : ExprSymbol Expr
  | unary : ExprSymbol Expr
  | call : ExprSymbol Expr
  | suffixes (target : Expr) : ExprSymbol Expr
  | arguments : ExprSymbol (List Expr)
  | expressions : ExprSymbol (List Expr)
  | primary : ExprSymbol Expr

/-- What the operators of a level stand between. -/
def Level.operand : Level → ExprSymbol Expr
  | .disjunction => .level .conjunction
  | .conjunction => .level .equality
  | .equality => .level .comparison
  | .comparison => .level .term
  | .term => .level .factor
  | .factor => .unary

inductive ExprSymbol.Derives : {α : Type} → ExprSymbol α → List Token → α → Prop
  | assign {n q w e} (name : n.kind = .identifier) (equal : q.kind = .equal)
    (value : Derives .expression w e) :
    Derives .expression (n :: q :: w) (.assign 0 (nameOf n) e)
  | set {w o d n q w' e} (object : Derives .call w o) (dot : d.kind = .dot)
    (name : n.kind = .identifier) (equal : q.kind = .equal)
    (value : Derives .expression w' e) :
    Derives .expression (w ++ d :: n :: q :: w') (.set o (nameOf n) e)
  | simple {w e} (value : Derives (.level .disjunction) w e) :
    Derives .expression w e
  | level {k : Level} {w l w' e} (first : Derives k.operand w l)
    (others : Derives (.further k l) w' e) : Derives (.level k) (w ++ w') e
  | lastOperand {k l} : Derives (.further k l) [] l
  | operator {k : Level} {l t w w' r e join} (operator : (t.kind, join) ∈ k.operators)
    (right : Derives k.operand w r)
    (others : Derives (.further k (join t.line l r)) w' e) :
    Derives (.further k l) (t :: (w ++ w')) e
  | sign {t w op e} (sign : (t.kind, op) ∈ signs) (operand : Derives .unary w e) :
    Derives .unary (t :: w) (.unary op t.line e)
  | unsigned {w e} (call : Derives .call w e) : Derives .unary w e
  | call {w e w' e'} (first : Derives .primary w e)
    (others : Derives (.suffixes e) w' e') : Derives .call (w ++ w') e'
  | lastSuffix {e} : Derives (.suffixes e) [] e
  | application {e l w r w' es e'} (left : l.kind = .leftParen)
    (arguments : Derives .arguments w es) (right : r.kind = .rightParen)
    (others : Derives (.suffixes (.call e r.line es)) w' e') :
    Derives (.suffixes e) (l :: (w ++ r :: w')) e'
  | property {e d n w e'} (dot : d.kind = .dot) (name : n.kind = .identifier)
    (others : Derives (.suffixes (.get e (nameOf n))) w e') :
    Derives (.suffixes e) (d :: n :: w) e'
  | noArgument : Derives .arguments [] []
  | arguments {w es} (some_ : Derives .expressions w es) : Derives .arguments w es
  | oneExpression {w e} (value : Derives .expression w e) :
    Derives .expressions w [e]
  | anotherExpression {w c w' e es} (value : Derives .expression w e)
    (comma : c.kind = .comma) (others : Derives .expressions w' es) :
    Derives .expressions (w ++ c :: w') (e :: es)
  | literal {t value} (literal : literal? t.kind = some value) :
    Derives .primary [t] (.literal value)
  | this {t} (this : t.kind = .this) : Derives .primary [t] (.this 0 t.line)
  | named {n} (name : n.kind = .identifier) : Derives .primary [n] (.var 0 (nameOf n))
  | grouping {l w r e} (left : l.kind = .leftParen) (inner : Derives .expression w e)
    (right : r.kind = .rightParen) : Derives .primary (l :: (w ++ [r])) (.grouping e)
  | super {k d n} (super : k.kind = .super) (dot : d.kind = .dot) (name : n.kind = .identifier) :
    Derives .primary [k, d, n] (.super 0 k.line (nameOf n))

/-! ### Statements -/

/-- Symbols of statements and declarations. A statement is `isOpen` if it ends in an `if` without
an `else`. -/
inductive Symbol : Type → Type
  | program : Symbol (List Stmt)
  | declarations : Symbol (List Stmt)
  | declaration : Symbol Stmt
  | heritage : Symbol (Option Superclass)
  | functions : Symbol (List Routine)
  | function : Symbol Routine
  | parameters : Symbol (List Name)
  | names : Symbol (List Name)
  | varDecl : Symbol Stmt
  | statement (isOpen : Bool) : Symbol Stmt
  | exprStmt : Symbol Stmt
  | initializer : Symbol (Option Stmt)
  | block : Symbol (List Stmt)
  | optional : Symbol (Option Expr)

/-- The test of a `for` that has none holds. -/
def testOf : Option Expr → Expr
  | some test => test
  | none => .literal .true

/-- The loop of a `for`: each round ends with the increment. -/
def loopOf (test : Option Expr) (body : Stmt) : Option Expr → Stmt
  | some increment => .loop (testOf test) (.block [body, .expression increment])
  | none => .loop (testOf test) body

/-- The tree of a `for`. -/
def forOf (test increment : Option Expr) (body : Stmt) : Option Stmt → Stmt
  | some first => .block [first, loopOf test body increment]
  | none => loopOf test body increment

inductive Symbol.Derives (nearest : Bool) : {α : Type} → Symbol α → List Token → α → Prop
  | program {w ss t} (body : Derives nearest .declarations w ss) (eof : t.kind = .endOfInput) :
    Derives nearest .program (w ++ [t]) ss
  | nothing : Derives nearest .declarations [] []
  | another {w w' s ss} (first : Derives nearest .declaration w s)
    (others : Derives nearest .declarations w' ss) :
    Derives nearest .declarations (w ++ w') (s :: ss)
  | classDecl {c n w l w' r superclass methods} (class_ : c.kind = .class_)
    (name : n.kind = .identifier) (heritage : Derives nearest .heritage w superclass)
    (left : l.kind = .leftBrace) (methods_ : Derives nearest .functions w' methods)
    (right : r.kind = .rightBrace) :
    Derives nearest .declaration (c :: n :: (w ++ l :: (w' ++ [r])))
      (.class_ (nameOf n) superclass methods)
  | funDecl {f w r} (fun_ : f.kind = .fun_) (function : Derives nearest .function w r) :
    Derives nearest .declaration (f :: w) (.function r)
  | varDeclaration {w s} (decl : Derives nearest .varDecl w s) : Derives nearest .declaration w s
  | plain {w s isOpen} (statement : Derives nearest (.statement isOpen) w s) :
    Derives nearest .declaration w s
  | noHeritage : Derives nearest .heritage [] none
  | extending {l n} (less : l.kind = .less) (name : n.kind = .identifier) :
    Derives nearest .heritage [l, n] (some ⟨0, nameOf n⟩)
  | noFunction : Derives nearest .functions [] []
  | anotherFunction {w w' r rs} (first : Derives nearest .function w r)
    (others : Derives nearest .functions w' rs) : Derives nearest .functions (w ++ w') (r :: rs)
  | function {n l w r w' names body} (name : n.kind = .identifier) (left : l.kind = .leftParen)
    (parameters : Derives nearest .parameters w names) (right : r.kind = .rightParen)
    (block : Derives nearest .block w' body) :
    Derives nearest .function (n :: l :: (w ++ r :: w')) ⟨nameOf n, names, body⟩
  | noParameter : Derives nearest .parameters [] []
  | parameters {w names} (some_ : Derives nearest .names w names) :
    Derives nearest .parameters w names
  | oneName {n} (name : n.kind = .identifier) : Derives nearest .names [n] [nameOf n]
  | anotherName {n c w names} (name : n.kind = .identifier) (comma : c.kind = .comma)
    (others : Derives nearest .names w names) :
    Derives nearest .names (n :: c :: w) (nameOf n :: names)
  | undefined {v n t} (var : v.kind = .var) (name : n.kind = .identifier)
    (semicolon : t.kind = .semicolon) :
    Derives nearest .varDecl [v, n, t] (.var (nameOf n) none)
  | defined {v n q w e t} (var : v.kind = .var) (name : n.kind = .identifier)
    (equal : q.kind = .equal) (value : ExprSymbol.Derives .expression w e)
    (semicolon : t.kind = .semicolon) :
    Derives nearest .varDecl (v :: n :: q :: (w ++ [t])) (.var (nameOf n) (some e))
  | exprStmt {w e t} (value : ExprSymbol.Derives .expression w e)
    (semicolon : t.kind = .semicolon) : Derives nearest .exprStmt (w ++ [t]) (.expression e)
  | expression {w s} (statement : Derives nearest .exprStmt w s) :
    Derives nearest (.statement false) w s
  | printStmt {p w e t} (print : p.kind = .print) (value : ExprSymbol.Derives .expression w e)
    (semicolon : t.kind = .semicolon) :
    Derives nearest (.statement false) (p :: (w ++ [t])) (.print e)
  | returnStmt {k w e t} (return_ : k.kind = .return_) (value : Derives nearest .optional w e)
    (semicolon : t.kind = .semicolon) :
    Derives nearest (.statement false) (k :: (w ++ [t])) (.return_ k.line e)
  | blockStmt {w ss} (block : Derives nearest .block w ss) :
    Derives nearest (.statement false) w (.block ss)
  | whileStmt {k l w r w' e s isOpen} (while_ : k.kind = .while_) (left : l.kind = .leftParen)
    (test : ExprSymbol.Derives .expression w e) (right : r.kind = .rightParen)
    (body : Derives nearest (.statement isOpen) w' s) :
    Derives nearest (.statement isOpen) (k :: l :: (w ++ r :: w')) (.loop e s)
  | forStmt {k l w w' t w'' r u first test increment body isOpen} (for_ : k.kind = .for_)
    (left : l.kind = .leftParen) (initializer : Derives nearest .initializer w first)
    (test_ : Derives nearest .optional w' test) (semicolon : t.kind = .semicolon)
    (increment_ : Derives nearest .optional w'' increment) (right : r.kind = .rightParen)
    (body_ : Derives nearest (.statement isOpen) u body) :
    Derives nearest (.statement isOpen) (k :: l :: (w ++ (w' ++ t :: (w'' ++ r :: u))))
      (forOf test increment body first)
  | ifThen {k l w r w' e s isOpen} (if_ : k.kind = .if_) (left : l.kind = .leftParen)
    (test : ExprSymbol.Derives .expression w e) (right : r.kind = .rightParen)
    (consequent : Derives nearest (.statement isOpen) w' s) :
    Derives nearest (.statement true) (k :: l :: (w ++ r :: w')) (.ifThen e s)
  | ifElse {k l w r w' j w'' e s s' isOpen isOpen'} (if_ : k.kind = .if_)
    (left : l.kind = .leftParen) (test : ExprSymbol.Derives .expression w e)
    (right : r.kind = .rightParen) (consequent : Derives nearest (.statement isOpen) w' s)
    (closed : nearest = true → isOpen = false) (else_ : j.kind = .else_)
    (alternative : Derives nearest (.statement isOpen') w'' s') :
    Derives nearest (.statement isOpen') (k :: l :: (w ++ r :: (w' ++ j :: w''))) (.ifElse e s s')
  | firstVar {w s} (decl : Derives nearest .varDecl w s) : Derives nearest .initializer w (some s)
  | firstExpr {w s} (statement : Derives nearest .exprStmt w s) :
    Derives nearest .initializer w (some s)
  | noFirst {t} (semicolon : t.kind = .semicolon) : Derives nearest .initializer [t] none
  | block {l w r ss} (left : l.kind = .leftBrace) (body : Derives nearest .declarations w ss)
    (right : r.kind = .rightBrace) : Derives nearest .block (l :: (w ++ [r])) ss
  | absent : Derives nearest .optional [] none
  | present {w e} (value : ExprSymbol.Derives .expression w e) :
    Derives nearest .optional w (some e)

namespace Symbol

/-! ### Any else can go to the nearest if -/

/-- A statement that is open can take an `else` and what comes after it. -/
def Closable : {α : Type} → Symbol α → List Token → Prop
  | _, .statement true, w => ∀ (j : Token) (w' : List Token) (s' : Stmt) (isOpen' : Bool),
    j.kind = .else_ → Derives true (.statement isOpen') w' s' →
      ∃ isOpen s, Derives true (.statement isOpen) (w ++ j :: w') s
  | _, _, _ => True

theorem Derives.closable {α : Type} {S : Symbol α} {w : List Token} {v : α}
    (h : Derives true S w v) : Closable S w := by
  induction h with
  | @whileStmt k l w r w' e s isOpen while_ left test right body ih =>
    cases isOpen with
    | false => trivial
    | true =>
      intro j u s' isOpen' hj hs'
      obtain ⟨isOpen, t, ht⟩ := ih j u s' isOpen' hj hs'
      refine ⟨isOpen, .loop e t, ?_⟩
      simpa using whileStmt while_ left test right ht
  | @forStmt k l w w' t w'' r u first test increment body isOpen for_ left initializer test_
      semicolon increment_ right body_ _ _ _ ih =>
    cases isOpen with
    | false => trivial
    | true =>
      intro j u s' isOpen' hj hs'
      obtain ⟨isOpen, s, hs⟩ := ih j u s' isOpen' hj hs'
      refine ⟨isOpen, forOf test increment s first, ?_⟩
      simpa using forStmt for_ left initializer test_ semicolon increment_ right hs
  | @ifThen k l w r w' e s isOpen if_ left test right consequent ih =>
    intro j u s' isOpen' hj hs'
    cases isOpen with
    | false =>
      refine ⟨isOpen', .ifElse e s s', ?_⟩
      simpa using ifElse if_ left test right consequent (fun _ ↦ rfl) hj hs'
    | true =>
      obtain ⟨isOpen, t, ht⟩ := ih j u s' isOpen' hj hs'
      refine ⟨true, .ifThen e t, ?_⟩
      simpa using ifThen if_ left test right ht
  | @ifElse k l w r w' i w'' e s s'' isOpen isOpen'' if_ left test right consequent closed else_
      alternative _ ih =>
    cases isOpen'' with
    | false => trivial
    | true =>
      intro j u s' isOpen' hj hs'
      obtain ⟨isOpen, t, ht⟩ := ih j u s' isOpen' hj hs'
      refine ⟨isOpen, .ifElse e s t, ?_⟩
      simpa using ifElse if_ left test right consequent closed else_ ht
  | _ => trivial

/-- What has a derivation has a nearest one, from the same symbol but for what stays open. -/
def Nearest : {α : Type} → Symbol α → List Token → Prop
  | _, .statement _, w => ∃ isOpen s, Derives true (.statement isOpen) w s
  | _, S, w => ∃ v, Derives true S w v

theorem Derives.nearest {α : Type} {S : Symbol α} {w : List Token} {v : α}
    (h : Derives false S w v) : Nearest S w := by
  induction h with
  | program body eof ih =>
    obtain ⟨ss, hss⟩ := ih
    exact ⟨ss, .program hss eof⟩
  | nothing => exact ⟨_, .nothing⟩
  | another first others ih ih' =>
    obtain ⟨s, hs⟩ := ih
    obtain ⟨ss, hss⟩ := ih'
    exact ⟨s :: ss, .another hs hss⟩
  | classDecl class_ name heritage left methods_ right ih ih' =>
    obtain ⟨superclass, hsuperclass⟩ := ih
    obtain ⟨methods, hmethods⟩ := ih'
    exact ⟨_, .classDecl class_ name hsuperclass left hmethods right⟩
  | funDecl fun_ function ih =>
    obtain ⟨r, hr⟩ := ih
    exact ⟨_, .funDecl fun_ hr⟩
  | varDeclaration decl ih =>
    obtain ⟨s, hs⟩ := ih
    exact ⟨s, .varDeclaration hs⟩
  | plain statement ih =>
    obtain ⟨isOpen, s, hs⟩ := ih
    exact ⟨s, .plain hs⟩
  | noHeritage => exact ⟨_, .noHeritage⟩
  | extending less name => exact ⟨_, .extending less name⟩
  | noFunction => exact ⟨_, .noFunction⟩
  | anotherFunction first others ih ih' =>
    obtain ⟨r, hr⟩ := ih
    obtain ⟨rs, hrs⟩ := ih'
    exact ⟨r :: rs, .anotherFunction hr hrs⟩
  | function name left parameters right block ih ih' =>
    obtain ⟨names, hnames⟩ := ih
    obtain ⟨body, hbody⟩ := ih'
    exact ⟨_, .function name left hnames right hbody⟩
  | noParameter => exact ⟨_, .noParameter⟩
  | parameters some_ ih =>
    obtain ⟨names, hnames⟩ := ih
    exact ⟨names, .parameters hnames⟩
  | oneName name => exact ⟨_, .oneName name⟩
  | anotherName name comma others ih =>
    obtain ⟨names, hnames⟩ := ih
    exact ⟨_, .anotherName name comma hnames⟩
  | undefined var name semicolon => exact ⟨_, .undefined var name semicolon⟩
  | defined var name equal value semicolon => exact ⟨_, .defined var name equal value semicolon⟩
  | exprStmt value semicolon => exact ⟨_, .exprStmt value semicolon⟩
  | expression statement ih =>
    obtain ⟨s, hs⟩ := ih
    exact ⟨false, s, .expression hs⟩
  | printStmt print value semicolon => exact ⟨false, _, .printStmt print value semicolon⟩
  | returnStmt return_ value semicolon ih =>
    obtain ⟨e, he⟩ := ih
    exact ⟨false, _, .returnStmt return_ he semicolon⟩
  | blockStmt block ih =>
    obtain ⟨ss, hss⟩ := ih
    exact ⟨false, _, .blockStmt hss⟩
  | whileStmt while_ left test right body ih =>
    obtain ⟨isOpen, s, hs⟩ := ih
    exact ⟨isOpen, _, .whileStmt while_ left test right hs⟩
  | forStmt for_ left initializer test_ semicolon increment_ right body_ ih ih' ih'' ih₃ =>
    obtain ⟨first, hfirst⟩ := ih
    obtain ⟨test, htest⟩ := ih'
    obtain ⟨increment, hincrement⟩ := ih''
    obtain ⟨isOpen, s, hs⟩ := ih₃
    exact ⟨isOpen, _, .forStmt for_ left hfirst htest semicolon hincrement right hs⟩
  | ifThen if_ left test right consequent ih =>
    obtain ⟨isOpen, s, hs⟩ := ih
    exact ⟨true, _, .ifThen if_ left test right hs⟩
  | @ifElse k l w r w' j w'' e s s' isOpen isOpen' if_ left test right consequent closed else_
      alternative ih ih' =>
    obtain ⟨isOpen, s, hs⟩ := ih
    obtain ⟨isOpen', s', hs'⟩ := ih'
    cases isOpen with
    | false => exact ⟨isOpen', _, .ifElse if_ left test right hs (fun _ ↦ rfl) else_ hs'⟩
    | true =>
      -- the else goes to an `if` inside of the consequent, and this one has none
      obtain ⟨isOpen, t, ht⟩ := hs.closable j w'' s' isOpen' else_ hs'
      exact ⟨true, _, .ifThen if_ left test right ht⟩
  | firstVar decl ih =>
    obtain ⟨s, hs⟩ := ih
    exact ⟨_, .firstVar hs⟩
  | firstExpr statement ih =>
    obtain ⟨s, hs⟩ := ih
    exact ⟨_, .firstExpr hs⟩
  | noFirst semicolon => exact ⟨_, .noFirst semicolon⟩
  | block left body right ih =>
    obtain ⟨ss, hss⟩ := ih
    exact ⟨ss, .block left hss right⟩
  | absent => exact ⟨_, .absent⟩
  | present value => exact ⟨_, .present value⟩

end Symbol

end Lox.Grammar
