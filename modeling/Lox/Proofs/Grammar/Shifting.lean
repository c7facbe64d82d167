import Lox.Proofs.Grammar.SoundStatements
import Lox.Proofs.Token.Joining

/-!
The same tokens read at another place of a text: on later lines, with identities drawn from another
one on, after other reports and with more tokens behind. A rule answers there what it answers here,
shifted, unless it is told by what comes after its last token: an answer of this kind can be relied
on only if there is a token after it here, or if the input ends behind it at both places.
-/

set_option autoImplicit false

namespace Lox

/-- How much later lines and identities are. -/
structure Shift where
  ids : Nat
  lines : Nat

def Name.shift (δ : Shift) (n : Name) : Name := ⟨n.text, n.line + δ.lines⟩

mutual

def Expr.shift (δ : Shift) : Expr → Expr
  | .literal value => .literal value
  | .grouping e => .grouping (e.shift δ)
  | .unary op line e => .unary op (line + δ.lines) (e.shift δ)
  | .binary op line l r => .binary op (line + δ.lines) (l.shift δ) (r.shift δ)
  | .logical op line l r => .logical op (line + δ.lines) (l.shift δ) (r.shift δ)
  | .var id name => .var (id + δ.ids) (name.shift δ)
  | .assign id name e => .assign (id + δ.ids) (name.shift δ) (e.shift δ)
  | .call callee line args => .call (callee.shift δ) (line + δ.lines) (Expr.shiftAll δ args)
  | .get e name => .get (e.shift δ) (name.shift δ)
  | .set o name e => .set (o.shift δ) (name.shift δ) (e.shift δ)
  | .this id line => .this (id + δ.ids) (line + δ.lines)
  | .super id line method => .super (id + δ.ids) (line + δ.lines) (method.shift δ)

def Expr.shiftAll (δ : Shift) : List Expr → List Expr
  | [] => []
  | e :: es => e.shift δ :: Expr.shiftAll δ es

end

def Superclass.shift (δ : Shift) (s : Superclass) : Superclass := ⟨s.id + δ.ids, s.name.shift δ⟩

mutual

def Stmt.shift (δ : Shift) : Stmt → Stmt
  | .expression e => .expression (e.shift δ)
  | .print e => .print (e.shift δ)
  | .var name initial => .var (name.shift δ) (initial.map (Expr.shift δ))
  | .block body => .block (Stmt.shiftAll δ body)
  | .ifThen test s => .ifThen (test.shift δ) (s.shift δ)
  | .ifElse test s t => .ifElse (test.shift δ) (s.shift δ) (t.shift δ)
  | .loop test s => .loop (test.shift δ) (s.shift δ)
  | .function r => .function (r.shift δ)
  | .return_ line value => .return_ (line + δ.lines) (value.map (Expr.shift δ))
  | .class_ name superclass methods =>
    .class_ (name.shift δ) (superclass.map (Superclass.shift δ)) (Routine.shiftAll δ methods)

def Stmt.shiftAll (δ : Shift) : List Stmt → List Stmt
  | [] => []
  | s :: ss => s.shift δ :: Stmt.shiftAll δ ss

def Routine.shift (δ : Shift) : Routine → Routine
  | ⟨name, names, body⟩ => ⟨name.shift δ, names.map (Name.shift δ), Stmt.shiftAll δ body⟩

def Routine.shiftAll (δ : Shift) : List Routine → List Routine
  | [] => []
  | r :: rs => r.shift δ :: Routine.shiftAll δ rs

end

def Diagnostic.later (lines : Nat) : Diagnostic → Diagnostic
  | .lexical line cause => .lexical (line + lines) cause
  | .grammar line place cause => .grammar (line + lines) place cause
  | .resolution line cause => .resolution (line + lines) cause

namespace Grammar

/-- What a rule can answer, at another place. -/
class Shifts (α : Type) where
  shift : Shift → α → α

instance : Shifts Token := ⟨fun δ t ↦ t.later δ.lines⟩

instance : Shifts Name := ⟨Name.shift⟩

instance : Shifts (List Name) := ⟨fun δ ↦ List.map (Name.shift δ)⟩

instance : Shifts Expr := ⟨Expr.shift⟩

instance : Shifts (List Expr) := ⟨Expr.shiftAll⟩

instance : Shifts (List Expr × Nat) := ⟨fun δ a ↦ (Expr.shiftAll δ a.1, a.2 + δ.lines)⟩

instance : Shifts (Option Expr) := ⟨fun δ ↦ Option.map (Expr.shift δ)⟩

instance : Shifts Stmt := ⟨Stmt.shift⟩

instance : Shifts (List Stmt) := ⟨Stmt.shiftAll⟩

instance : Shifts (Option Stmt) := ⟨fun δ ↦ Option.map (Stmt.shift δ)⟩

instance : Shifts Routine := ⟨Routine.shift⟩

instance : Shifts (List Routine) := ⟨Routine.shiftAll⟩

open Shifts (shift)

/-- Another place of reading: how much later it is, what has been reported before, what comes
behind, where the input ends, and whether it ends there where it ends here. -/
structure Elsewhere extends Shift where
  reports : List Diagnostic
  behind : List Token
  endLine : Nat
  ends : Prop

/-- The second cursor is there what the first one is here. -/
structure Moved (μ : Elsewhere) (c c' : Cursor) : Prop where
  rest : c'.rest = c.rest.map (Token.later μ.lines) ++ μ.behind
  nextId : c'.nextId = c.nextId + μ.ids
  reports : c'.reports = μ.reports ++ c.reports.map (Diagnostic.later μ.lines)
  endLine : c'.endLine = μ.endLine
  ending : μ.ends → μ.behind = [] ∧ μ.endLine = c.endLine + μ.lines

/-- What comes next is the same there: a token, or the end of input at both places. -/
def Settled (μ : Elsewhere) (c : Cursor) : Prop := c.rest ≠ [] ∨ μ.ends

/-- An answer that does not depend on what comes after it. -/
def Closed (_ : Cursor) : Prop := True

/-- The second reply is there what the first one is here, given a condition on where an answer
ends, and given that it is settled what comes next where a failure is found. -/
def Follows {α : Type} [Shifts α] {n n' : Nat} (μ : Elsewhere) (ok : Cursor → Prop) :
    Reply n α → Reply n' α → Prop
  | .done value next _, .done value' next' _ =>
    ok next → value' = shift μ.toShift value ∧ Moved μ next next'
  | .done _ next _, .failed _ _ _ => ¬ok next
  | .failed cause next _, .failed cause' next' _ =>
    Settled μ next → cause' = cause.later μ.lines ∧ Moved μ next next'
  | .failed _ next _, .done _ _ _ => ¬Settled μ next

/-- Nothing has to follow from the reply. -/
def Open {α : Type} {n : Nat} (μ : Elsewhere) (ok : Cursor → Prop) (r : Reply n α) : Prop :=
  r.Ends (fun _ next ↦ ¬ok next) fun next ↦ ¬Settled μ next

section

variable {α β : Type} [Shifts α] [Shifts β] {μ : Elsewhere} {c c' : Cursor} {n n' : Nat}
  {ok ok' : Cursor → Prop}

theorem Open.follows {r : Reply n α} (h : Open μ ok r) (r' : Reply n' α) : Follows μ ok r r' := by
  cases r with
  | done value next less =>
    cases r' with
    | done value' next' less' => exact fun hok ↦ absurd hok h
    | failed cause' next' notLonger' => exact h
  | failed cause next notLonger =>
    cases r' with
    | done value' next' less' => exact h
    | failed cause' next' notLonger' => exact fun hsettled ↦ absurd hsettled h

theorem follows_bind {r : Reply n α} {r' : Reply n' α}
    {next : (a : α) → (after : Cursor) → after.size < n → Reply n β}
    {next' : (a : α) → (after : Cursor) → after.size < n' → Reply n' β} (h : Follows μ ok r r')
    (hopen : ∀ a after less, ¬ok after → Open μ ok' (next a after less))
    (hnext : ∀ a after less after' less', ok after → Moved μ after after' →
      Follows μ ok' (next a after less) (next' (shift μ.toShift a) after' less')) :
    Follows μ ok' (r.bind next) (r'.bind next') := by
  cases r with
  | done value after less =>
    by_cases hok : ok after
    · cases r' with
      | done value' after' less' =>
        obtain ⟨rfl, hmoved⟩ := h hok
        exact hnext value after less after' less' hok hmoved
      | failed cause' after' notLonger' => exact absurd hok h
    · exact (hopen value after less hok).follows _
  | failed cause after notLonger =>
    by_cases hsettled : Settled μ after
    · cases r' with
      | done value' after' less' => exact absurd hsettled h
      | failed cause' after' notLonger' => exact h
    · exact Open.follows (r := .failed cause after notLonger) hsettled _

theorem follows_andThen {r : Reply c.size α} {r' : Reply c'.size α} {less : c.size < n}
    {less' : c'.size < n'}
    {next : (a : α) → (after : Cursor) → after.size < c.size → after.size < n → Reply n β}
    {next' : (a : α) → (after : Cursor) → after.size < c'.size → after.size < n' → Reply n' β}
    (h : Follows μ ok r r')
    (hopen : ∀ a after shorter less, ¬ok after → Open μ ok' (next a after shorter less))
    (hnext : ∀ a after shorter less after' shorter' less', ok after → Moved μ after after' →
      Follows μ ok' (next a after shorter less)
        (next' (shift μ.toShift a) after' shorter' less')) :
    Follows μ ok' (r.andThen less next) (r'.andThen less' next') := by
  cases r with
  | done value after shorter =>
    by_cases hok : ok after
    · cases r' with
      | done value' after' shorter' =>
        obtain ⟨rfl, hmoved⟩ := h hok
        exact hnext value after shorter _ after' shorter' _ hok hmoved
      | failed cause' after' notLonger' => exact absurd hok h
    · exact (hopen value after shorter _ hok).follows _
  | failed cause after notLonger =>
    by_cases hsettled : Settled μ after
    · cases r' with
      | done value' after' less' => exact absurd hsettled h
      | failed cause' after' notLonger' => exact h
    · exact Open.follows (r := .failed cause after (Nat.le_trans notLonger (Nat.le_of_lt less)))
        hsettled _

theorem follows_bind_closed {r : Reply n α} {r' : Reply n' α}
    {next : (a : α) → (after : Cursor) → after.size < n → Reply n β}
    {next' : (a : α) → (after : Cursor) → after.size < n' → Reply n' β}
    (h : Follows μ Closed r r')
    (hnext : ∀ a after less after' less', Moved μ after after' →
      Follows μ ok' (next a after less) (next' (shift μ.toShift a) after' less')) :
    Follows μ ok' (r.bind next) (r'.bind next') :=
  follows_bind h (fun _ _ _ hnot ↦ absurd trivial hnot) fun a after less after' less' _ ↦
    hnext a after less after' less'

theorem follows_andThen_closed {r : Reply c.size α} {r' : Reply c'.size α} {less : c.size < n}
    {less' : c'.size < n'}
    {next : (a : α) → (after : Cursor) → after.size < c.size → after.size < n → Reply n β}
    {next' : (a : α) → (after : Cursor) → after.size < c'.size → after.size < n' → Reply n' β}
    (h : Follows μ Closed r r')
    (hnext : ∀ a after shorter less after' shorter' less', Moved μ after after' →
      Follows μ ok' (next a after shorter less)
        (next' (shift μ.toShift a) after' shorter' less')) :
    Follows μ ok' (r.andThen less next) (r'.andThen less' next') :=
  follows_andThen h (fun _ _ _ _ hnot ↦ absurd trivial hnot)
    fun a after shorter less after' shorter' less' _ ↦
      hnext a after shorter less after' shorter' less'

theorem follows_inside {r : Reply c.size α} {r' : Reply c'.size α} {less : c.size < n}
    {less' : c'.size < n'} (h : Follows μ ok r r') :
    Follows μ ok (r.inside less) (r'.inside less') := by
  cases r <;> cases r' <;> exact h

theorem follows_map {f f' : α → β} {r : Reply n α} {r' : Reply n' α} (h : Follows μ ok r r')
    (hf : ∀ a, f' (shift μ.toShift a) = shift μ.toShift (f a)) :
    Follows μ ok (r.map f) (r'.map f') := by
  cases r with
  | done value next less =>
    cases r' with
    | done value' next' less' =>
      intro hok
      obtain ⟨rfl, hmoved⟩ := h hok
      exact ⟨hf value, hmoved⟩
    | failed cause' next' notLonger' => exact h
  | failed cause next notLonger => cases r' <;> exact h

theorem follows_done {value value' : α} {next next' : Cursor} {less : next.size < n}
    {less' : next'.size < n'} (h : value' = shift μ.toShift value) (hmoved : Moved μ next next') :
    Follows μ ok (.done value next less) (.done value' next' less') :=
  fun _ ↦ ⟨h, hmoved⟩

/-- An answer that nothing after it can change holds under any condition. -/
theorem Follows.closed {r : Reply n α} {r' : Reply n' α} (h : Follows μ Closed r r')
    (ok : Cursor → Prop) : Follows μ ok r r' := by
  cases r with
  | done value next less =>
    cases r' with
    | done value' next' less' => exact fun _ ↦ h trivial
    | failed cause' next' notLonger' => exact absurd trivial h
  | failed cause next notLonger => cases r' <;> exact h

end

/-! ### Cursors -/

section

variable {α : Type} [Shifts α] {μ : Elsewhere} {c c' : Cursor} {ok : Cursor → Prop}

theorem not_settled (h : ¬Settled μ c) : c.rest = [] :=
  Classical.not_not.1 fun hrest ↦ h (.inl hrest)

theorem rest_eq_nil {c : Cursor} (h : c.size ≤ 0) : c.rest = [] :=
  List.length_eq_zero_iff.1 (Nat.le_zero.1 h)

omit [Shifts α] in
/-- A rule that begins where it is not settled what comes next has no tokens to read. -/
theorem open_start (h : ¬Settled μ c) (r : Reply c.size α) : Open μ ok r := by
  have hsize : c.size = 0 := by rw [Cursor.size, not_settled h]; rfl
  cases r with
  | done value next less => exact absurd less (by omega)
  | failed cause next notLonger =>
    rintro (hrest | hends)
    · exact hrest (rest_eq_nil (by omega))
    · exact h (.inr hends)

/-- Either the same token comes next at both places, or none does. -/
theorem Settled.cases (h : Settled μ c) (hmoved : Moved μ c c') :
    (∃ t rest, c.rest = t :: rest) ∨ c.rest = [] ∧ c'.rest = [] := by
  cases hrest : c.rest with
  | cons t rest => exact .inl ⟨t, rest, rfl⟩
  | nil =>
    refine .inr ⟨rfl, ?_⟩
    rcases h with hsome | hends
    · exact absurd hrest hsome
    · rw [hmoved.rest, hrest, (hmoved.ending hends).1]
      rfl

theorem Moved.rest_cons (h : Moved μ c c') {t : Token} {rest : List Token}
    (hrest : c.rest = t :: rest) :
    c'.rest = t.later μ.lines :: (rest.map (Token.later μ.lines) ++ μ.behind) := by
  rw [h.rest, hrest]
  rfl

theorem Moved.skip (h : Moved μ c c') {t : Token} {rest : List Token} (hrest : c.rest = t :: rest) :
    Moved μ c.skip c'.skip where
  rest := by
    change c'.rest.tail = c.rest.tail.map _ ++ _
    rw [h.rest_cons hrest, hrest]
    rfl
  nextId := h.nextId
  reports := h.reports
  endLine := h.endLine
  ending := h.ending

theorem Moved.draw (h : Moved μ c c') : Moved μ c.draw c'.draw where
  rest := h.rest
  nextId := by
    change c'.nextId + 1 = c.nextId + 1 + _
    rw [h.nextId, Nat.add_right_comm]
  reports := h.reports
  endLine := h.endLine
  ending := h.ending

theorem Moved.report (h : Moved μ c c') (d : Diagnostic) :
    Moved μ (c.report d) (c'.report (d.later μ.lines)) where
  rest := h.rest
  nextId := h.nextId
  reports := by
    change c'.reports ++ _ = _ ++ (c.reports ++ _).map _
    rw [h.reports, List.map_append, List.append_assoc]
    rfl
  endLine := h.endLine
  ending := h.ending

theorem Moved.sees (h : Moved μ c c') (hsettled : Settled μ c) (kind : Token.Kind) :
    c'.sees kind = c.sees kind := by
  unfold Cursor.sees
  rcases hsettled.cases h with ⟨t, rest, hrest⟩ | ⟨hrest, hrest'⟩
  · rw [h.rest_cons hrest, hrest]
    rfl
  · rw [hrest, hrest']

theorem not_sees (hopen : ¬Settled μ c) (kind : Token.Kind) : ¬c.sees kind = true := by
  unfold Cursor.sees
  rw [not_settled hopen]
  exact Bool.false_ne_true

theorem Moved.size_eq_zero (h : Moved μ c c') (hsettled : Settled μ c) :
    c'.size = 0 ↔ c.size = 0 := by
  unfold Cursor.size
  rcases hsettled.cases h with ⟨t, rest, hrest⟩ | ⟨hrest, hrest'⟩
  · rw [h.rest_cons hrest, hrest]
    simp
  · rw [hrest, hrest']

/-- Whether a sequence of declarations stops. -/
theorem Moved.stops (h : Moved μ c c') (hsettled : Settled μ c) (kind : Token.Kind) :
    (c'.sees kind = true ∨ c'.size = 0) ↔ (c.sees kind = true ∨ c.size = 0) := by
  rw [h.sees hsettled, h.size_eq_zero hsettled]

theorem Moved.complaint (h : Moved μ c c') (hsettled : Settled μ c) (cause : GrammarError) :
    c'.complaint cause = (c.complaint cause).later μ.lines := by
  unfold Cursor.complaint
  rcases hsettled.cases h with ⟨t, rest, hrest⟩ | ⟨hrest, hrest'⟩
  · rw [h.rest_cons hrest, hrest]
    rfl
  · have hends : μ.ends := hsettled.resolve_left fun hsome ↦ hsome hrest
    rw [hrest, hrest', h.endLine, (h.ending hends).2]
    rfl

theorem follows_fail (h : Moved μ c c') (cause : GrammarError) :
    Follows μ ok (c.fail cause : Reply c.size α) (c'.fail cause) :=
  fun hsettled ↦ ⟨h.complaint hsettled cause, h⟩

theorem follows_expect (h : Moved μ c c') (kind : Token.Kind) (cause : GrammarError) :
    Follows μ Closed (c.expect kind cause) (c'.expect kind cause) := by
  by_cases hsettled : Settled μ c
  swap
  · exact (open_start hsettled _).follows _
  rcases hsettled.cases h with ⟨t, rest, hrest⟩ | ⟨hrest, hrest'⟩
  swap
  · rw [expect_nil hrest, expect_nil hrest']
    exact follows_fail h cause
  rw [expect_cons hrest, expect_cons (h.rest_cons hrest)]
  by_cases hkind : t.kind = kind
  · rw [if_pos hkind, if_pos (show (t.later μ.lines).kind = kind from hkind)]
    exact follows_done rfl (h.skip hrest)
  · rw [if_neg hkind, if_neg (show ¬(t.later μ.lines).kind = kind from hkind)]
    exact follows_fail h cause

theorem follows_expectName (h : Moved μ c c') (cause : GrammarError) :
    Follows μ Closed (c.expectName cause) (c'.expectName cause) :=
  follows_map (follows_expect h .identifier cause) fun _ ↦ rfl

end

end Grammar

end Lox
