import Lox.Proofs.ForLoops.Contexts
import Lox.Proofs.Grammar.Reading

/-!
A `for` and the blocks and the `while` that it stands for. Both are put together from the words of
the same four parts, in another order and with other tokens between them, and the grammar derives
one tree from them (`Clauses.Derivable.derives`).
-/

set_option autoImplicit false

namespace Lox.Grammar

/-! ### Parts of a for -/

/-- What there is in a part of a `for`: nothing, or something that can stand elsewhere. -/
def Symbol.Clause : {α : Type} → Symbol α → List Token → α → Prop
  | _, .optional, w, e => w = [] ∧ e = none ∨ w ≠ [] ∧ ∃ v, e = some v ∧
      ExprSymbol.Derives .expression w v
  | _, .initializer, w, s => w.map Token.kind = [.semicolon] ∧ s = none ∨
      w.map Token.kind ≠ [.semicolon] ∧ ∃ v, s = some v ∧ Derives true .declaration w v
  | _, .varDecl, w, _ => w.map Token.kind ≠ [.semicolon]
  | _, .exprStmt, w, _ => w.map Token.kind ≠ [.semicolon]
  | _, _, _, _ => True

theorem Symbol.Derives.clause {α : Type} {S : Symbol α} {w : List Token} {v : α}
    (h : Derives true S w v) : Clause S w v := by
  induction h with
  | absent => exact .inl ⟨rfl, rfl⟩
  | present value =>
    obtain ⟨t, u, rfl, -⟩ := value.first
    exact .inr ⟨nofun, _, rfl, value⟩
  | undefined _ _ _ => simp [Clause]
  | defined _ _ _ _ _ => simp [Clause]
  | exprStmt value _ =>
    obtain ⟨t, u, rfl, -⟩ := value.first
    simp [Clause]
  | firstVar decl ih => exact .inr ⟨ih, _, rfl, .varDeclaration decl⟩
  | firstExpr statement ih => exact .inr ⟨ih, _, rfl, .plain (.expression statement)⟩
  | noFirst semicolon => exact .inl ⟨by simp [semicolon], rfl⟩
  | _ => trivial

/-- The words of the parts of a `for`; the first one ends with its semicolon. -/
structure Clauses where
  first : List Token
  test : List Token
  increment : List Token
  body : List Token

namespace Clauses

variable (c : Clauses) {isOpen : Bool}

/-- Each part is derived by its rule of the grammar; the body ends in an `if` without an `else` if
`isOpen`. -/
structure Derivable (c : Clauses) (isOpen : Bool) : Prop where
  first : ∃ first, Symbol.Derives true .initializer c.first first
  test : ∃ test, Symbol.Derives true .optional c.test test
  increment : ∃ increment, Symbol.Derives true .optional c.increment increment
  body : ∃ body, Symbol.Derives true (.statement isOpen) c.body body

/-- The parts as a `for`. -/
def forText : List Token :=
  ⟨.for_, "for", 0⟩ :: ⟨.leftParen, "(", 0⟩ :: (c.first ++ (c.test ++ ⟨.semicolon, ";", 0⟩ ::
    (c.increment ++ ⟨.rightParen, ")", 0⟩ :: c.body)))

/-- A word in braces. -/
def braced (w : List Token) : List Token :=
  ⟨.leftBrace, "\x7b", 0⟩ :: (w ++ [⟨.rightBrace, "\x7d", 0⟩])

/-- The test of the loop. -/
def condition : List Token := if c.test = [] then [⟨.true, "true", 0⟩] else c.test

/-- A round of the loop. -/
def round : List Token :=
  if c.increment = [] then c.body
  else braced (c.body ++ (c.increment ++ [⟨.semicolon, ";", 0⟩]))

def loop : List Token :=
  ⟨.while_, "while", 0⟩ :: ⟨.leftParen, "(", 0⟩ ::
    (c.condition ++ ⟨.rightParen, ")", 0⟩ :: c.round)

/-- The parts as a `while`, in a block if something comes before it. -/
def desugared : List Token :=
  if c.first.map Token.kind = [.semicolon] then c.loop else braced (c.first ++ c.loop)

/-- Whether there are braces around a part of the `while`. -/
def IsBraced : Prop := c.first.map Token.kind ≠ [.semicolon] ∨ c.increment ≠ []

/-- The parts with more words at the end of the body. -/
def extended (u : List Token) : Clauses := { c with body := c.body ++ u }

theorem forText_extended (u : List Token) : (c.extended u).forText = c.forText ++ u := by
  simp [forText, extended]

theorem desugared_of_not_braced (h : ¬c.IsBraced) :
    c.desugared = ⟨.while_, "while", 0⟩ :: ⟨.leftParen, "(", 0⟩ ::
      (c.condition ++ ⟨.rightParen, ")", 0⟩ :: c.body) := by
  obtain ⟨hfirst, hincrement⟩ := not_or.1 h
  rw [desugared, if_pos (not_not.1 hfirst), loop, round, if_pos (not_not.1 hincrement)]

/-- Without braces the body is the end of the `while`, as it is of the `for`. -/
theorem desugared_extended (h : ¬c.IsBraced) (u : List Token) :
    (c.extended u).desugared = c.desugared ++ u := by
  have hcondition : (c.extended u).condition = c.condition := rfl
  rw [desugared_of_not_braced c h, desugared_of_not_braced (c.extended u) h, hcondition]
  simp [extended]

/-! ### Both are derived -/

variable {c}

theorem derives_condition {test : Option Expr} (h : Symbol.Derives true .optional c.test test) :
    ExprSymbol.Derives .expression c.condition (testOf test) := by
  unfold condition
  obtain ⟨hempty, rfl⟩ | ⟨hsome, value, rfl, hvalue⟩ := h.clause
  · rw [if_pos hempty]
    exact derives_primary (.literal rfl)
  · rw [if_neg hsome]
    exact hvalue

/-- The loop ends with the body if no increment comes after it. -/
theorem derives_loop {test increment : Option Expr} {body : Stmt}
    (htest : Symbol.Derives true .optional c.test test)
    (hincrement : Symbol.Derives true .optional c.increment increment)
    (hbody : Symbol.Derives true (.statement isOpen) c.body body) :
    ∃ isOpen', Symbol.Derives true (.statement isOpen') c.loop (loopOf test body increment) ∧
      (isOpen' = true → isOpen = true) := by
  unfold loop round
  obtain ⟨hempty, rfl⟩ | ⟨hsome, value, rfl, hvalue⟩ := hincrement.clause
  · rw [if_pos hempty]
    exact ⟨isOpen, .whileStmt rfl rfl (derives_condition htest) rfl hbody, id⟩
  · rw [if_neg hsome]
    have hlast : Symbol.Derives true .declaration (c.increment ++ [⟨.semicolon, ";", 0⟩]) _ :=
      .plain (.expression (.exprStmt hvalue rfl))
    have hround : Symbol.Derives true .declarations
        (c.body ++ (c.increment ++ [⟨.semicolon, ";", 0⟩])) [body, .expression value] := by
      simpa using Symbol.Derives.another (.plain hbody) (.another hlast .nothing)
    exact ⟨false, .whileStmt rfl rfl (derives_condition htest) rfl
      (.blockStmt (.block rfl hround rfl)), nofun⟩

theorem derives_desugared {first : Option Stmt} {test increment : Option Expr} {body : Stmt}
    (hfirst : Symbol.Derives true .initializer c.first first)
    (htest : Symbol.Derives true .optional c.test test)
    (hincrement : Symbol.Derives true .optional c.increment increment)
    (hbody : Symbol.Derives true (.statement isOpen) c.body body) :
    ∃ isOpen', Symbol.Derives true (.statement isOpen') c.desugared
        (forOf test increment body first) ∧ (isOpen' = true → isOpen = true) := by
  obtain ⟨isOpen', hloop, hopen⟩ := derives_loop htest hincrement hbody
  unfold desugared
  obtain ⟨hempty, rfl⟩ | ⟨hsome, first, rfl, hdeclaration⟩ := hfirst.clause
  · rw [if_pos hempty]
    exact ⟨isOpen', hloop, hopen⟩
  · rw [if_neg hsome]
    have hinside : Symbol.Derives true .declarations (c.first ++ c.loop)
        [first, loopOf test body increment] := by
      simpa using Symbol.Derives.another hdeclaration (.another (.plain hloop) .nothing)
    exact ⟨false, .blockStmt (.block rfl hinside rfl), nofun⟩

/-- Both are statements with one tree, and the loop is open only if the `for` is. -/
theorem Derivable.derives (h : c.Derivable isOpen) :
    ∃ s isOpen', Symbol.Derives true (.statement isOpen) c.forText s ∧
      Symbol.Derives true (.statement isOpen') c.desugared s ∧
      (isOpen' = true → isOpen = true) := by
  obtain ⟨first, hfirst⟩ := h.first
  obtain ⟨test, htest⟩ := h.test
  obtain ⟨increment, hincrement⟩ := h.increment
  obtain ⟨body, hbody⟩ := h.body
  obtain ⟨isOpen', hloop, hopen⟩ := derives_desugared hfirst htest hincrement hbody
  exact ⟨_, isOpen', .forStmt rfl rfl hfirst htest rfl hincrement rfl hbody, hloop, hopen⟩

end Clauses

end Lox.Grammar
