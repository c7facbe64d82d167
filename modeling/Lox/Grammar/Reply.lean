import Lox.Diagnostic
import Lox.Tree.Basic

/-!
What a grammar rule answers. A rule that succeeds has read at least one token, and one that
fails has not given any back; both facts are part of the answer, and recursion ends by them.
A failure keeps the place it was found at, from which reading can go on.
-/

set_option autoImplicit false

namespace Lox

/-- State of reading: the tokens left before the end of input, the line of that end, the
next free identity, and the errors reported so far. -/
structure Cursor where
  rest : List Token
  endLine : Nat
  nextId : NodeId
  reports : List Diagnostic

namespace Cursor

abbrev size (c : Cursor) : Nat := c.rest.length

/-- Reading stops at the first end of input. Tokens without one end on line one. -/
def ofTokens (tokens : List Token) : Cursor where
  rest := tokens.takeWhile fun t ↦ t.kind ≠ .endOfInput
  endLine := ((tokens.find? fun t ↦ t.kind = .endOfInput).map Token.line).getD 1
  nextId := 0
  reports := []

/-- Whether the next token is of this kind. -/
def sees (c : Cursor) (kind : Token.Kind) : Bool :=
  match c.rest with
  | [] => false
  | t :: _ => decide (t.kind = kind)

/-- The cursor after the next token. -/
def skip (c : Cursor) : Cursor := { c with rest := c.rest.tail }

/-- The cursor after an identity has been drawn. -/
def draw (c : Cursor) : Cursor := { c with nextId := c.nextId + 1 }

def report (c : Cursor) (d : Diagnostic) : Cursor := { c with reports := c.reports ++ [d] }

/-- The error that lies in what comes next. -/
def complaint (c : Cursor) (cause : GrammarError) : Diagnostic :=
  match c.rest with
  | [] => .grammar c.endLine .endOfInput cause
  | t :: _ => .grammar t.line t.place cause

theorem size_skip_le (c : Cursor) : c.skip.size ≤ c.size := by
  simp [skip, size]

theorem size_skip_of_cons {c : Cursor} {t : Token} {rest : List Token} (e : c.rest = t :: rest) :
    c.skip.size < c.size := by
  simp [skip, size, e]

theorem size_skip {c : Cursor} {kind : Token.Kind} (h : c.sees kind = true) :
    c.skip.size < c.size := by
  unfold sees at h
  split at h
  · cases h
  · next t rest e => exact size_skip_of_cons e

theorem size_pos {c : Cursor} {p : Prop} (h : ¬(p ∨ c.size = 0)) : 0 < c.size :=
  Nat.pos_of_ne_zero fun none ↦ h (Or.inr none)

theorem le_self (c : Cursor) : c.size ≤ c.size := Nat.le_refl _

theorem le_of_lt {c : Cursor} {n : Nat} (h : c.size < n) : c.size ≤ n := Nat.le_of_lt h

theorem lt_of_lt_of_le {a c : Cursor} {n : Nat} (h : a.size < c.size) (k : c.size ≤ n) :
    a.size < n :=
  Nat.lt_of_lt_of_le h k

theorem lt_trans {a c : Cursor} {n : Nat} (h : a.size < c.size) (k : c.size < n) : a.size < n :=
  Nat.lt_trans h k

theorem le_of_lt_of_le {a c : Cursor} {n : Nat} (h : a.size < c.size) (k : c.size ≤ n) :
    a.size ≤ n :=
  Nat.le_of_lt (Nat.lt_of_lt_of_le h k)

theorem skip_le {c : Cursor} {n : Nat} (h : c.size ≤ n) : c.skip.size ≤ n :=
  Nat.le_trans c.size_skip_le h

theorem skip_lt {c : Cursor} {n : Nat} (h : c.size < n) : c.skip.size < n :=
  Nat.lt_of_le_of_lt c.size_skip_le h

theorem skip_lt_of_cons {c : Cursor} {t : Token} {rest : List Token} {n : Nat}
    (e : c.rest = t :: rest) (k : c.size ≤ n) : c.skip.size < n :=
  Nat.lt_of_lt_of_le (size_skip_of_cons e) k

theorem skip_lt_size {a c : Cursor} (h : a.size < c.size) : a.skip.size < c.size := skip_lt h

theorem skip_lt_of_le {c : Cursor} {kind : Token.Kind} {n : Nat} (h : c.sees kind = true)
    (k : c.size ≤ n) : c.skip.size < n :=
  Nat.lt_of_lt_of_le (size_skip h) k

theorem skip_lt_of_lt {a c : Cursor} {n : Nat} (h : a.size < c.size) (k : c.size < n) :
    a.skip.size < n :=
  Nat.lt_trans (skip_lt h) k

theorem skip_lt_of_lt_of_le {a c : Cursor} {n : Nat} (h : a.size < c.size) (k : c.size ≤ n) :
    a.skip.size < n :=
  Nat.lt_of_lt_of_le (skip_lt h) k

theorem lt_of_lt_skip {a c : Cursor} (h : a.size < c.skip.size) : a.size < c.size :=
  Nat.lt_of_lt_of_le h c.size_skip_le

theorem le_of_lt_skip {a c : Cursor} {n : Nat} (h : a.size < c.skip.size) (k : c.size ≤ n) :
    a.size ≤ n :=
  Nat.le_of_lt (Nat.lt_of_lt_of_le (lt_of_lt_skip h) k)

@[simp] theorem size_draw (c : Cursor) : c.draw.size = c.size := rfl

@[simp] theorem size_report (c : Cursor) (d : Diagnostic) : (c.report d).size = c.size := rfl

end Cursor

/-- Answer of a rule that began with `size` tokens left. -/
inductive Reply (size : Nat) (α : Type)
  | done (value : α) (next : Cursor) (shorter : next.size < size)
  | failed (cause : Diagnostic) (next : Cursor) (notLonger : next.size ≤ size)

namespace Reply

variable {α β : Type} {n : Nat}

/-- Goes on after a success. A failure is the failure of the whole. -/
@[inline] def bind (r : Reply n α)
    (next : (a : α) → (after : Cursor) → after.size < n → Reply n β) : Reply n β :=
  match r with
  | .done value after shorter => next value after shorter
  | .failed cause after notLonger => .failed cause after notLonger

/-- Goes on after a success of a rule that began at `c`, within a rule that began earlier. -/
@[inline] def andThen {c : Cursor} (r : Reply c.size α) (less : c.size < n)
    (next : (a : α) → (after : Cursor) → after.size < c.size → after.size < n → Reply n β) :
    Reply n β :=
  match r with
  | .done value after shorter => next value after shorter (Nat.lt_trans shorter less)
  | .failed cause after notLonger =>
    .failed cause after (Nat.le_trans notLonger (Nat.le_of_lt less))

/-- The reply of a rule that began at `c`, as that of a rule that began earlier. -/
@[inline] def inside {c : Cursor} (r : Reply c.size α) (less : c.size < n) : Reply n α :=
  match r with
  | .done value after shorter => .done value after (Nat.lt_trans shorter less)
  | .failed cause after notLonger =>
    .failed cause after (Nat.le_trans notLonger (Nat.le_of_lt less))

@[inline] def map (f : α → β) (r : Reply n α) : Reply n β :=
  match r with
  | .done value c shorter => .done (f value) c shorter
  | .failed cause c notLonger => .failed cause c notLonger

end Reply

/-- A rule for texts with fewer than `n` tokens left. -/
abbrev Below (n : Nat) (α : Type) := (c : Cursor) → c.size < n → Reply c.size α

/-- A rule for texts with at most `n` tokens left. -/
abbrev UpTo (n : Nat) (α : Type) := (c : Cursor) → c.size ≤ n → Reply c.size α

namespace Cursor

def fail {α : Type} (c : Cursor) (cause : GrammarError) : Reply c.size α :=
  .failed (c.complaint cause) c c.le_self

/-- The next token, which has to be of this kind. -/
def expect (c : Cursor) (kind : Token.Kind) (cause : GrammarError) : Reply c.size Token :=
  match e : c.rest with
  | [] => c.fail cause
  | t :: _ => if t.kind = kind then .done t c.skip (size_skip_of_cons e) else c.fail cause

/-- The next token as a name. -/
def expectName (c : Cursor) (cause : GrammarError) : Reply c.size Name :=
  (c.expect .identifier cause).map fun t ↦ ⟨t.lexeme, t.line⟩

end Cursor

end Lox
