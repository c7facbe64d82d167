import Lox.Grammar.Statement

/-!
The rules that look at the next token, by what it is: an equation for a cursor in front of a token,
and one for a cursor at the end. Proofs about these rules rewrite with the equations once it is
known what comes next.
-/

set_option autoImplicit false

namespace Lox.Grammar

variable {n : Nat} {c : Cursor} {t : Token} {rest : List Token}

/-! ### Tokens that are expected -/

theorem expect_cons (hrest : c.rest = t :: rest) (kind : Token.Kind) (cause : GrammarError) :
    c.expect kind cause =
      if t.kind = kind then .done t c.skip (Cursor.size_skip_of_cons hrest) else c.fail cause := by
  unfold Cursor.expect
  split
  next hnil => rw [hrest] at hnil; cases hnil
  next t' rest' hcons =>
    rw [hrest] at hcons
    cases hcons
    rfl

theorem expect_nil (hrest : c.rest = []) (kind : Token.Kind) (cause : GrammarError) :
    c.expect kind cause = c.fail cause := by
  unfold Cursor.expect
  split
  next => rfl
  next hcons =>
    rw [hrest] at hcons
    cases hcons

/-! ### Expressions -/

section

variable {expression : Below n Expr}

/-- What a primary expression that begins with a token is, by the kind of the token. -/
def primaryOf (expression : Below n Expr) (c : Cursor) (within : c.size ≤ n) (t : Token)
    (shorter : c.skip.size < c.size) : Reply c.size Expr :=
  match t.kind with
  | .false => .done (.literal .false) c.skip shorter
  | .true => .done (.literal .true) c.skip shorter
  | .nil => .done (.literal .nil) c.skip shorter
  | .number value => .done (.literal (.number value)) c.skip shorter
  | .string value => .done (.literal (.string value)) c.skip shorter
  | .identifier => .done (.var c.nextId ⟨t.lexeme, t.line⟩) c.skip.draw shorter
  | .this => .done (.this c.nextId t.line) c.skip.draw shorter
  | .super => (superAccess t.line c.skip).inside shorter
  | .leftParen => (grouping expression c.skip (Nat.lt_of_lt_of_le shorter within)).inside shorter
  | _ => c.fail .expression

theorem primary_nil (hrest : c.rest = []) (within : c.size ≤ n) :
    primary expression c within = c.fail .expression := by
  unfold primary
  split
  next => rfl
  next hcons => rw [hrest] at hcons; cases hcons

theorem primary_cons (hrest : c.rest = t :: rest) (within : c.size ≤ n) :
    primary expression c within =
      primaryOf expression c within t (Cursor.size_skip_of_cons hrest) := by
  unfold primary
  split
  next hnil => rw [hrest] at hnil; cases hnil
  next t' rest' hcons =>
    rw [hrest] at hcons
    cases hcons
    rfl

theorem unary_nil (hrest : c.rest = []) (within : c.size ≤ n) :
    unary expression c within = call expression c within := by
  rw [unary]
  split
  next => rfl
  next hcons => rw [hrest] at hcons; cases hcons

theorem unary_cons (hrest : c.rest = t :: rest) (within : c.size ≤ n) :
    unary expression c within =
      match unaryOp? t with
      | none => call expression c within
      | some op =>
        ((unary expression c.skip (c.skip_le within)).inside (Cursor.size_skip_of_cons hrest)).map
          (.unary op t.line) := by
  rw [unary]
  split
  next hnil => rw [hrest] at hnil; cases hnil
  next t' rest' hcons =>
    rw [hrest] at hcons
    cases hcons
    rfl

end

/-! ### Statements and declarations -/

section

variable {rules : Rules n}

theorem statementWith_nil (hrest : c.rest = []) (within : c.size ≤ n) :
    statementWith rules c within = expressionStatement c := by
  unfold statementWith
  split
  next => rfl
  next hcons => rw [hrest] at hcons; cases hcons

theorem statementWith_cons (hrest : c.rest = t :: rest) (within : c.size ≤ n) :
    statementWith rules c within =
      match statementAfter? rules t c.skip (Cursor.skip_lt_of_cons hrest within) with
      | some reply => reply.inside (Cursor.size_skip_of_cons hrest)
      | none => expressionStatement c := by
  unfold statementWith
  split
  next hnil => rw [hrest] at hnil; cases hnil
  next t' rest' hcons =>
    rw [hrest] at hcons
    cases hcons
    rfl

theorem declarationWith_nil (hrest : c.rest = []) (within : c.size ≤ n) :
    declarationWith rules c within = statementWith rules c within := by
  unfold declarationWith
  split
  next => rfl
  next hcons => rw [hrest] at hcons; cases hcons

theorem declarationWith_cons (hrest : c.rest = t :: rest) (within : c.size ≤ n) :
    declarationWith rules c within =
      match declarationAfter? rules t c.skip (Cursor.skip_lt_of_cons hrest within) with
      | some reply => reply.inside (Cursor.size_skip_of_cons hrest)
      | none => statementWith rules c within := by
  unfold declarationWith
  split
  next hnil => rw [hrest] at hnil; cases hnil
  next t' rest' hcons =>
    rw [hrest] at hcons
    cases hcons
    rfl

end

end Lox.Grammar
