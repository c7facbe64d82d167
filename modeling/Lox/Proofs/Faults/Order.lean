import Lox.Proofs.Faults.Reporting
import Lox.Proofs.Grammar.Reading

/-!
The lines of the errors of one program. Errors of the scanner and of the parser are put in order.
Errors of resolution come as its walk comes to them, and the walk turns round the text in two
places: it visits the value that is given to a property before the object, and the body of a `for`
before the increment. So they are in order exactly if nothing is wrong on both sides of such a
place, on different lines.
-/

set_option autoImplicit false

namespace Lox

/-- No error stands on a line before that of an earlier one. -/
def InOrder (ds : List Diagnostic) : Prop := ds.Pairwise fun d d' ↦ d.line ≤ d'.line

instance (ds : List Diagnostic) : Decidable (InOrder ds) :=
  inferInstanceAs (Decidable (ds.Pairwise fun d d' ↦ d.line ≤ d'.line))

/-- None of the first errors stands on a line behind one of the others. -/
def NotBehind (ds ds' : List Diagnostic) : Prop := ∀ d ∈ ds, ∀ d' ∈ ds', d.line ≤ d'.line

theorem inOrder_append {ds ds' : List Diagnostic} :
    InOrder (ds ++ ds') ↔ InOrder ds ∧ InOrder ds' ∧ NotBehind ds ds' := List.pairwise_append

/-! ### Where the walk turns round the text -/

mutual

/-- The errors in the values given to properties are not behind those in the objects. -/
def Expr.InTurn (π : List Enclosing) : Expr → Prop
  | .literal _ | .var _ _ | .this _ _ | .super _ _ _ => True
  | .grouping e | .unary _ _ e | .get e _ | .assign _ _ e => e.InTurn π
  | .binary _ _ l r | .logical _ _ l r => l.InTurn π ∧ r.InTurn π
  | .call callee _ args => callee.InTurn π ∧ Expr.InTurnAll π args
  | .set o _ e => o.InTurn π ∧ e.InTurn π ∧ NotBehind (e.reported π) (o.reported π)

def Expr.InTurnAll (π : List Enclosing) : List Expr → Prop
  | [] => True
  | e :: es => e.InTurn π ∧ Expr.InTurnAll π es

end

def Expr.InTurnOf (π : List Enclosing) : Option Expr → Prop
  | none => True
  | some e => e.InTurn π

/-- The body of a loop of which each round ends with an increment. -/
def Stmt.RoundInTurn (π : List Enclosing) : Stmt → Prop
  | .block [body, .expression increment] => NotBehind (body.reported π) (increment.reported π)
  | _ => True

mutual

/-- So are, in each loop, the errors in the body not behind those in the increment. -/
def Stmt.InTurn (π : List Enclosing) : Stmt → Prop
  | .expression e | .print e => e.InTurn π
  | .var name initial => Expr.InTurnOf (.initial name.text :: π) initial
  | .block body => Stmt.InTurnAll π body
  | .ifThen test s => test.InTurn π ∧ s.InTurn π
  | .ifElse test s t => test.InTurn π ∧ s.InTurn π ∧ t.InTurn π
  | .loop test body => test.InTurn π ∧ body.InTurn π ∧ body.RoundInTurn π
  | .function r => r.InTurn (.function :: π)
  | .return_ _ value => Expr.InTurnOf π value
  | .class_ _ superclass methods => Routine.InTurnAll (.class_ superclass.isSome :: π) methods

def Stmt.InTurnAll (π : List Enclosing) : List Stmt → Prop
  | [] => True
  | s :: ss => s.InTurn π ∧ Stmt.InTurnAll π ss

def Routine.InTurn (π : List Enclosing) : Routine → Prop
  | ⟨_, _, body⟩ => Stmt.InTurnAll π body

def Routine.InTurnAll (π : List Enclosing) : List Routine → Prop
  | [] => True
  | r :: rs => r.InTurn (.method r.name.text :: π) ∧ Routine.InTurnAll π rs

end

/-! ### Trees without identities -/

mutual

/-- Identities make no difference to what is reported, nor to its order. -/
theorem unnumbered_expr (π : List Enclosing) : (e : Expr) →
    e.unnumbered.reported π = e.reported π ∧ (e.unnumbered.InTurn π ↔ e.InTurn π)
  | .literal _ | .var _ _ | .this _ _ | .super _ _ _ => ⟨rfl, Iff.rfl⟩
  | .grouping e | .unary _ _ e | .get e _ | .assign _ _ e => unnumbered_expr π e
  | .binary _ _ l r | .logical _ _ l r =>
    ⟨congrArg₂ (· ++ ·) (unnumbered_expr π l).1 (unnumbered_expr π r).1,
      and_congr (unnumbered_expr π l).2 (unnumbered_expr π r).2⟩
  | .call callee _ args =>
    ⟨congrArg₂ (· ++ ·) (unnumbered_expr π callee).1 (unnumbered_exprs π args).1,
      and_congr (unnumbered_expr π callee).2 (unnumbered_exprs π args).2⟩
  | .set o _ e => by
    obtain ⟨ho, ho'⟩ := unnumbered_expr π o
    obtain ⟨he, he'⟩ := unnumbered_expr π e
    refine ⟨congrArg₂ (· ++ ·) he ho, and_congr ho' (and_congr he' ?_)⟩
    rw [he, ho]

theorem unnumbered_exprs (π : List Enclosing) : (es : List Expr) →
    Expr.reportedAll π (Expr.unnumberedAll es) = Expr.reportedAll π es ∧
      (Expr.InTurnAll π (Expr.unnumberedAll es) ↔ Expr.InTurnAll π es)
  | [] => ⟨rfl, Iff.rfl⟩
  | e :: es =>
    ⟨congrArg₂ (· ++ ·) (unnumbered_expr π e).1 (unnumbered_exprs π es).1,
      and_congr (unnumbered_expr π e).2 (unnumbered_exprs π es).2⟩

end

theorem unnumbered_optionalExpr (π : List Enclosing) : (e : Option Expr) →
    Expr.reportedOf π (e.map Expr.unnumbered) = Expr.reportedOf π e ∧
      (Expr.InTurnOf π (e.map Expr.unnumbered) ↔ Expr.InTurnOf π e)
  | none => ⟨rfl, Iff.rfl⟩
  | some e => unnumbered_expr π e

theorem unnumbered_superclass (π : List Enclosing) (name : Name) : (s : Option Superclass) →
    Superclass.reported π name (s.map Superclass.unnumbered) = Superclass.reported π name s
  | none | some _ => rfl

mutual

theorem unnumbered_stmt (π : List Enclosing) : (s : Stmt) →
    s.unnumbered.reported π = s.reported π ∧ (s.unnumbered.InTurn π ↔ s.InTurn π) ∧
      (s.unnumbered.RoundInTurn π ↔ s.RoundInTurn π)
  | .expression e | .print e => ⟨(unnumbered_expr π e).1, (unnumbered_expr π e).2, Iff.rfl⟩
  | .var name initial =>
    ⟨(unnumbered_optionalExpr _ initial).1, (unnumbered_optionalExpr _ initial).2, Iff.rfl⟩
  | .block body => unnumbered_stmts π body
  | .ifThen test s =>
    ⟨congrArg₂ (· ++ ·) (unnumbered_expr π test).1 (unnumbered_stmt π s).1,
      and_congr (unnumbered_expr π test).2 (unnumbered_stmt π s).2.1, Iff.rfl⟩
  | .ifElse test s t =>
    ⟨congrArg₂ (· ++ ·) (unnumbered_expr π test).1
        (congrArg₂ (· ++ ·) (unnumbered_stmt π s).1 (unnumbered_stmt π t).1),
      and_congr (unnumbered_expr π test).2
        (and_congr (unnumbered_stmt π s).2.1 (unnumbered_stmt π t).2.1), Iff.rfl⟩
  | .loop test body =>
    ⟨congrArg₂ (· ++ ·) (unnumbered_expr π test).1 (unnumbered_stmt π body).1,
      and_congr (unnumbered_expr π test).2
        (and_congr (unnumbered_stmt π body).2.1 (unnumbered_stmt π body).2.2), Iff.rfl⟩
  | .function r => ⟨(unnumbered_routine _ r).1, (unnumbered_routine _ r).2, Iff.rfl⟩
  | .return_ line value => by
    obtain ⟨hreported, hturn⟩ := unnumbered_optionalExpr π value
    refine ⟨?_, hturn, Iff.rfl⟩
    simp only [Stmt.unnumbered, Stmt.reported, hreported, Option.isSome_map]
  | .class_ name superclass methods => by
    obtain ⟨hreported, hturn⟩ := unnumbered_routines (.class_ superclass.isSome :: π) methods
    refine ⟨?_, ?_, Iff.rfl⟩
    · simp only [Stmt.unnumbered, Stmt.reported, hreported, Option.isSome_map,
        unnumbered_superclass]
    · simp only [Stmt.unnumbered, Stmt.InTurn, hturn, Option.isSome_map]

theorem unnumbered_stmts (π : List Enclosing) : (ss : List Stmt) →
    Stmt.reportedAll π (Stmt.unnumberedAll ss) = Stmt.reportedAll π ss ∧
      (Stmt.InTurnAll π (Stmt.unnumberedAll ss) ↔ Stmt.InTurnAll π ss) ∧
      (Stmt.RoundInTurn π (.block (Stmt.unnumberedAll ss)) ↔ Stmt.RoundInTurn π (.block ss))
  | [] => ⟨rfl, Iff.rfl, Iff.rfl⟩
  | s :: ss => by
    obtain ⟨hs, hs', -⟩ := unnumbered_stmt π s
    obtain ⟨hss, hss', -⟩ := unnumbered_stmts π ss
    refine ⟨congrArg₂ (· ++ ·) hs hss, and_congr hs' hss', ?_⟩
    match ss, hss with
    | [], _ => exact Iff.rfl
    | [t], ht =>
      cases t with
      | expression e =>
        have he : e.unnumbered.reported π = e.reported π := List.append_cancel_right ht
        simp only [Stmt.unnumberedAll, Stmt.unnumbered, Stmt.RoundInTurn, hs, he]
      | _ => exact Iff.rfl
    | t :: u :: ss, _ => cases t <;> exact Iff.rfl

theorem unnumbered_routine (π : List Enclosing) : (r : Routine) →
    r.unnumbered.reported π = r.reported π ∧ (r.unnumbered.InTurn π ↔ r.InTurn π)
  | ⟨_, _, body⟩ => ⟨(unnumbered_stmts π body).1, (unnumbered_stmts π body).2.1⟩

theorem unnumbered_routines (π : List Enclosing) : (rs : List Routine) →
    Routine.reportedAll π (Routine.unnumberedAll rs) = Routine.reportedAll π rs ∧
      (Routine.InTurnAll π (Routine.unnumberedAll rs) ↔ Routine.InTurnAll π rs)
  | [] => ⟨rfl, Iff.rfl⟩
  | ⟨name, names, body⟩ :: rs =>
    ⟨congrArg₂ (· ++ ·) (unnumbered_routine (.method name.text :: π) ⟨name, names, body⟩).1
        (unnumbered_routines π rs).1,
      and_congr (unnumbered_routine (.method name.text :: π) ⟨name, names, body⟩).2
        (unnumbered_routines π rs).2⟩

end

/-! ### Errors in a stretch of tokens -/

/-- No token stands on a line before that of an earlier one. -/
def Token.Rising (w : List Token) : Prop := w.Pairwise fun t t' ↦ t.line ≤ t'.line

def Construct.line : Construct → Nat
  | .read name => name.line
  | .this line | .super line | .return_ line _ => line
  | .extension _ superclass => superclass.line

theorem Occurrence.line_of_violation {o : Occurrence} {d : Diagnostic} (h : o.violation? = some d) :
    d.line = o.construct.line := by
  obtain ⟨π, construct⟩ := o
  unfold Occurrence.violation? at h
  cases construct <;> dsimp only at h
  case read | this | super | extension => split at h <;> cases h <;> rfl
  case return_ =>
    split at h
    · cases h
      rfl
    · split at h <;> cases h
      rfl

/-- These errors stand on lines of the stretch, and they are in order exactly if this holds. -/
structure Spread (w : List Token) (ds : List Diagnostic) (inTurn : Prop) : Prop where
  among : ∀ d ∈ ds, ∃ t ∈ w, t.line = d.line
  inOrder_iff : InOrder ds ↔ inTurn

section

variable {w w' : List Token} {ds ds' : List Diagnostic} {inTurn inTurn' : Prop} {t : Token}

theorem spread_nil (w : List Token) : Spread w [] True := ⟨nofun, iff_of_true .nil trivial⟩

theorem spread_one {o : Occurrence} (h : o.construct.line = t.line) :
    Spread [t] o.reported True := by
  unfold Occurrence.reported
  cases hviolation : o.violation? with
  | none => exact spread_nil _
  | some d =>
    refine ⟨fun d' hd' ↦ ⟨t, List.mem_singleton.2 rfl, ?_⟩,
      iff_of_true (List.pairwise_singleton _ d) trivial⟩
    obtain rfl := List.mem_singleton.1 hd'
    exact (o.line_of_violation hviolation).trans h |>.symm

theorem Spread.mono (h : Spread w ds inTurn) (hsub : w ⊆ w') : Spread w' ds inTurn := by
  refine ⟨fun d hd ↦ ?_, h.inOrder_iff⟩
  obtain ⟨t, ht, hline⟩ := h.among d hd
  exact ⟨t, hsub ht, hline⟩

theorem Spread.cons (h : Spread w ds inTurn) (t : Token) : Spread (t :: w) ds inTurn :=
  h.mono (List.subset_cons_self t w)

theorem Spread.congr (h : Spread w ds inTurn) (hiff : inTurn ↔ inTurn') : Spread w ds inTurn' :=
  ⟨h.among, h.inOrder_iff.trans hiff⟩

theorem Spread.notBehind (h : Spread w ds inTurn) (h' : Spread w' ds' inTurn')
    (hw : Token.Rising (w ++ w')) : NotBehind ds ds' := by
  intro d hd d' hd'
  obtain ⟨t, ht, hline⟩ := h.among d hd
  obtain ⟨t', ht', hline'⟩ := h'.among d' hd'
  rw [← hline, ← hline']
  exact (List.pairwise_append.1 hw).2.2 t ht t' ht'

theorem Spread.append (h : Spread w ds inTurn) (h' : Spread w' ds' inTurn')
    (hw : Token.Rising (w ++ w')) : Spread (w ++ w') (ds ++ ds') (inTurn ∧ inTurn') := by
  refine ⟨fun d hd ↦ ?_, ?_⟩
  · rcases List.mem_append.1 hd with hd | hd
    · obtain ⟨t, ht, hline⟩ := h.among d hd
      exact ⟨t, List.mem_append_left _ ht, hline⟩
    · obtain ⟨t, ht, hline⟩ := h'.among d hd
      exact ⟨t, List.mem_append_right _ ht, hline⟩
  · rw [inOrder_append, h.inOrder_iff, h'.inOrder_iff]
    exact and_congr_right' (and_iff_left (h.notBehind h' hw))

theorem Spread.append_nil (h : Spread w ds inTurn) : Spread w (ds ++ []) (inTurn ∧ True) := by
  rw [List.append_nil]
  exact h.congr (iff_of_eq (and_true inTurn)).symm

/-- Errors that come the other way round are in order if they do not stand on different lines. -/
theorem Spread.swap (h : Spread w ds inTurn) (h' : Spread w' ds' inTurn') :
    Spread (w ++ w') (ds' ++ ds) (inTurn ∧ inTurn' ∧ NotBehind ds' ds) := by
  refine ⟨fun d hd ↦ ?_, ?_⟩
  · rcases List.mem_append.1 hd with hd | hd
    · obtain ⟨t, ht, hline⟩ := h'.among d hd
      exact ⟨t, List.mem_append_right _ ht, hline⟩
    · obtain ⟨t, ht, hline⟩ := h.among d hd
      exact ⟨t, List.mem_append_left _ ht, hline⟩
  · rw [inOrder_append, h.inOrder_iff, h'.inOrder_iff]
    exact and_left_comm

theorem Token.Rising.left (h : Token.Rising (w ++ w')) : Token.Rising w :=
  (List.pairwise_append.1 h).1

theorem Token.Rising.right (h : Token.Rising (w ++ w')) : Token.Rising w' :=
  (List.pairwise_append.1 h).2.1

theorem Token.Rising.tail (h : Token.Rising (t :: w)) : Token.Rising w := List.Pairwise.of_cons h

end

namespace Grammar

/-- In a derivation from the symbol errors are spread over the word. An expression may continue
one that stands before the word. -/
def ExprSymbol.Spreads : {α : Type} → ExprSymbol α → List Token → α → Prop
  | _, .further _ l, w, e | _, .suffixes l, w, e => ∀ π u, Token.Rising (u ++ w) →
      Spread u (l.reported π) (l.InTurn π) → Spread (u ++ w) (e.reported π) (e.InTurn π)
  | _, .arguments, w, es | _, .expressions, w, es => ∀ π, Token.Rising w →
      Spread w (Expr.reportedAll π es) (Expr.InTurnAll π es)
  | _, .expression, w, e | _, .level _, w, e | _, .unary, w, e | _, .call, w, e
  | _, .primary, w, e => ∀ π, Token.Rising w → Spread w (e.reported π) (e.InTurn π)

theorem Level.spreads_operand (k : Level) {w : List Token} {e : Expr}
    (h : k.operand.Spreads w e) (π : List Enclosing) (hw : Token.Rising w) :
    Spread w (e.reported π) (e.InTurn π) := by
  cases k <;> exact h π hw

/-- The two sides of an operator are visited as they stand. -/
theorem Level.reported_join {k : Level} {kind : Token.Kind} {join : Nat → Expr → Expr → Expr}
    (hjoin : (kind, join) ∈ k.operators) (π : List Enclosing) (line : Nat) (l r : Expr) :
    (join line l r).reported π = l.reported π ++ r.reported π ∧
      ((join line l r).InTurn π ↔ l.InTurn π ∧ r.InTurn π) := by
  cases k <;>
    simp only [operators, List.mem_cons, List.not_mem_nil, Prod.mk.injEq, or_false] at hjoin
  case disjunction | conjunction =>
    obtain ⟨-, rfl⟩ := hjoin
    exact ⟨rfl, Iff.rfl⟩
  case equality | term | factor =>
    rcases hjoin with ⟨-, rfl⟩ | ⟨-, rfl⟩ <;> exact ⟨rfl, Iff.rfl⟩
  case comparison =>
    rcases hjoin with ⟨-, rfl⟩ | ⟨-, rfl⟩ | ⟨-, rfl⟩ | ⟨-, rfl⟩ <;> exact ⟨rfl, Iff.rfl⟩

theorem ExprSymbol.Derives.spreads {α : Type} {S : ExprSymbol α} {w : List Token} {v : α}
    (h : Derives S w v) : S.Spreads w v := by
  induction h with
  | assign name equal value ih => exact fun π hw ↦ ((ih π hw.tail.tail).cons _).cons _
  | @set w o d n q w' e object dot name equal value ih ih' =>
    intro π hw
    exact (ih π hw.left).swap (((ih' π hw.right.tail.tail.tail).cons q).cons n |>.cons d)
  | simple value ih => exact ih
  | @level k w l w' e first others ih ih' =>
    exact fun π hw ↦ ih' π w hw (k.spreads_operand ih π hw.left)
  | lastOperand => exact fun π u hw h ↦ by rwa [List.append_nil]
  | @operator k l t w w' r e join operator right others ih ih' =>
    intro π u hw h
    obtain ⟨hreported, hturn⟩ := Level.reported_join operator π t.line l r
    have hsplit : u ++ t :: (w ++ w') = (u ++ t :: w) ++ w' := by simp
    rw [hsplit] at hw ⊢
    refine ih' π _ hw ?_
    rw [hreported]
    exact ((h.append ((k.spreads_operand ih π hw.left.right.tail).cons t) hw.left)).congr hturn.symm
  | sign sign operand ih => exact fun π hw ↦ (ih π hw.tail).cons _
  | unsigned call ih => exact ih
  | @call w e w' e' first others ih ih' => exact fun π hw ↦ ih' π w hw (ih π hw.left)
  | lastSuffix => exact fun π u hw h ↦ by rwa [List.append_nil]
  | @application e l w r w' es e' left arguments right others ih ih' =>
    intro π u hw h
    have hsplit : u ++ l :: (w ++ r :: w') = (u ++ l :: (w ++ [r])) ++ w' := by simp
    rw [hsplit] at hw ⊢
    have hargs := ((ih π hw.left.right.tail.left).mono (List.subset_append_left w [r])).cons l
    exact ih' π _ hw (h.append hargs hw.left)
  | @property e d n w e' dot name others ih =>
    intro π u hw h
    have hsplit : u ++ d :: n :: w = (u ++ [d, n]) ++ w := by simp
    rw [hsplit] at hw ⊢
    exact ih π _ hw (h.mono (List.subset_append_left u [d, n]))
  | noArgument => exact fun π _ ↦ spread_nil _
  | arguments some_ ih => exact ih
  | oneExpression value ih => exact fun π hw ↦ (ih π hw).append_nil
  | @anotherExpression w c w' e es value comma others ih ih' =>
    exact fun π hw ↦ (ih π hw.left).append ((ih' π hw.right.tail).cons c) hw
  | literal literal => exact fun π _ ↦ spread_nil _
  | this this => exact fun π _ ↦ spread_one rfl
  | named name => exact fun π _ ↦ spread_one rfl
  | @grouping l w r e left inner right ih =>
    exact fun π hw ↦ ((ih π hw.tail.left).mono (List.subset_append_left w [r])).cons l
  | @super k d n super dot name =>
    exact fun π _ ↦ (spread_one (t := k) rfl).mono (List.subset_append_left [k] [d, n])

/-! ### Statements -/

/-- What stands in the block of a round stands there in order. -/
theorem roundInTurn_of_inOrder {π : List Enclosing} {body : Stmt}
    (h : InOrder (body.reported π)) : body.RoundInTurn π := by
  unfold Stmt.RoundInTurn
  split
  next first increment =>
    have hblock : (Stmt.block [first, .expression increment]).reported π =
        first.reported π ++ increment.reported π :=
      congrArg (first.reported π ++ ·) (List.append_nil _)
    rw [hblock] at h
    exact (inOrder_append.1 h).2.2
  next => trivial

/-- In a derivation from the symbol errors are spread over the word. -/
def Symbol.Spreads : {α : Type} → Symbol α → List Token → α → Prop
  | _, .program, w, ss | _, .declarations, w, ss | _, .block, w, ss => ∀ π, Token.Rising w →
      Spread w (Stmt.reportedAll π ss) (Stmt.InTurnAll π ss)
  | _, .declaration, w, s | _, .varDecl, w, s | _, .statement _, w, s | _, .exprStmt, w, s =>
    ∀ π, Token.Rising w → Spread w (s.reported π) (s.InTurn π)
  | _, .heritage, w, superclass => ∀ π name, Spread w (Superclass.reported π name superclass) True
  | _, .functions, w, rs => ∀ π, Token.Rising w →
      Spread w (Routine.reportedAll π rs) (Routine.InTurnAll π rs)
  | _, .function, w, r => ∀ π, Token.Rising w → Spread w (r.reported π) (r.InTurn π)
  | _, .initializer, w, first => ∀ π, Token.Rising w →
      Spread w (Stmt.reportedAll π first.toList) (Stmt.InTurnAll π first.toList)
  | _, .optional, w, e => ∀ π, Token.Rising w → Spread w (Expr.reportedOf π e) (Expr.InTurnOf π e)
  | _, .parameters, _, _ | _, .names, _, _ => True

theorem reported_forOf (π : List Enclosing) (test increment : Option Expr) (body : Stmt)
    (first : Option Stmt) :
    (forOf test increment body first).reported π =
      Stmt.reportedAll π first.toList ++ (Expr.reportedOf π test ++
        (body.reported π ++ Expr.reportedOf π increment)) := by
  cases first <;> cases test <;> cases increment <;>
    simp [forOf, loopOf, testOf, Stmt.reported, Stmt.reportedAll, Expr.reported, Expr.reportedOf]

/-- Of a `for` the body and the increment come the other way round. -/
theorem inTurn_forOf {π : List Enclosing} {body : Stmt}
    (hround : body.InTurn π → body.RoundInTurn π) (test increment : Option Expr)
    (first : Option Stmt) :
    (forOf test increment body first).InTurn π ↔
      Stmt.InTurnAll π first.toList ∧ Expr.InTurnOf π test ∧ Expr.InTurnOf π increment ∧
        body.InTurn π ∧ NotBehind (body.reported π) (Expr.reportedOf π increment) := by
  have hloop : (loopOf test body increment).InTurn π ↔
      Expr.InTurnOf π test ∧ Expr.InTurnOf π increment ∧
        body.InTurn π ∧ NotBehind (body.reported π) (Expr.reportedOf π increment) := by
    have htest : (testOf test).InTurn π ↔ Expr.InTurnOf π test := by
      cases test <;> exact Iff.rfl
    cases increment with
    | none =>
      have hnone : NotBehind (body.reported π) (Expr.reportedOf π none) := fun _ _ ↦ nofun
      simp only [loopOf, Stmt.InTurn, htest, Expr.InTurnOf, true_and]
      exact and_congr_right' (and_congr_right fun hbody ↦ iff_of_true (hround hbody) hnone)
    | some e =>
      simp only [loopOf, Stmt.InTurn, Stmt.InTurnAll, Stmt.RoundInTurn, htest, Expr.InTurnOf,
        Expr.reportedOf, and_true]
      exact and_congr_right' (by rw [and_assoc]; exact and_left_comm)
  cases first with
  | none => exact hloop.trans (and_iff_right trivial).symm
  | some s =>
    simp only [forOf, Stmt.InTurn, Stmt.InTurnAll, Option.toList_some, hloop, and_true]

theorem Symbol.Derives.spreads {nearest : Bool} {α : Type} {S : Symbol α} {w : List Token} {v : α}
    (h : Derives nearest S w v) : S.Spreads w v := by
  induction h with
  | @program w ss t body eof ih =>
    exact fun π hw ↦ (ih π hw.left).mono (List.subset_append_left w [t])
  | nothing => exact fun π _ ↦ spread_nil _
  | another first others ih ih' => exact fun π hw ↦ (ih π hw.left).append (ih' π hw.right) hw
  | @classDecl c n w l w' r superclass methods class_ name heritage left methods_ right ih ih' =>
    intro π hw
    have hmethods := ((ih' (.class_ superclass.isSome :: π) hw.tail.tail.right.tail.left).mono
      (List.subset_append_left w' [r])).cons l
    exact ((((ih π (nameOf n)).append hmethods hw.tail.tail).cons n).cons c).congr
      (and_iff_right trivial)
  | funDecl fun_ function ih => exact fun π hw ↦ (ih _ hw.tail).cons _
  | varDeclaration decl ih => exact ih
  | plain statement ih => exact ih
  | noHeritage => exact fun π _ ↦ spread_nil _
  | @extending l n less name =>
    intro π _
    have hboth : Token.Rising ([n] ++ [n]) := List.pairwise_pair.2 (Nat.le_refl _)
    exact ((((spread_one (t := n) rfl).append (spread_one rfl) hboth).mono
      (List.append_subset.2 ⟨List.Subset.refl _, List.Subset.refl _⟩)).cons l).congr
        (and_iff_right trivial)
  | noFunction => exact fun π _ ↦ spread_nil _
  | anotherFunction first others ih ih' =>
    exact fun π hw ↦ (ih _ hw.left).append (ih' π hw.right) hw
  | @function n l w r w' names body name left parameters right block ih ih' =>
    exact fun π hw ↦ ((((ih' π hw.tail.tail.right.tail).cons r).mono
      (List.subset_append_right w _)).cons l).cons n
  | noParameter | parameters | oneName | anotherName => trivial
  | undefined var name semicolon => exact fun π _ ↦ spread_nil _
  | @defined v n q w e t var name equal value semicolon =>
    intro π hw
    have hvalue := value.spreads (.initial (nameOf n).text :: π) hw.tail.tail.tail.left
    exact (((hvalue.mono (List.subset_append_left w [t])).cons q).cons n).cons v
  | @exprStmt w e t value semicolon =>
    exact fun π hw ↦ (value.spreads π hw.left).mono (List.subset_append_left w [t])
  | expression statement ih => exact ih
  | @printStmt p w e t print value semicolon =>
    exact fun π hw ↦ ((value.spreads π hw.tail.left).mono (List.subset_append_left w [t])).cons p
  | @returnStmt k w e t return_ value semicolon ih =>
    intro π hw
    have hvalue := (ih π hw.tail.left).mono (List.subset_append_left w [t])
    exact ((spread_one (t := k) rfl).append hvalue hw).congr (and_iff_right trivial)
  | blockStmt block ih => exact ih
  | @whileStmt k l w r w' e s isOpen while_ left test right body ih =>
    intro π hw
    have hbody := ih π hw.tail.tail.right.tail
    have hround : s.InTurn π ↔ s.InTurn π ∧ s.RoundInTurn π :=
      (and_iff_left_of_imp fun h ↦ roundInTurn_of_inOrder (hbody.inOrder_iff.2 h)).symm
    exact ((((test.spreads π hw.tail.tail.left).append (hbody.cons r) hw.tail.tail).cons l).cons
      k).congr (and_congr_right' hround)
  | @forStmt k l w w' t w'' r u first test increment body isOpen for_ left initializer test_
      semicolon increment_ right body_ ih ih' ih'' ih₃ =>
    intro π hw
    have hlater := hw.tail.tail.right
    have hlast := hlater.right.tail
    have hbody := ih₃ π hlast.right.tail
    rw [reported_forOf, inTurn_forOf fun h ↦ roundInTurn_of_inOrder (hbody.inOrder_iff.2 h)]
    have hturned := (ih'' π hlast.left).swap (hbody.cons r)
    have htested := (ih' π hlater.left).append (hturned.cons t) hlater
    exact (((ih π hw.tail.tail.left).append htested hw.tail.tail).cons l).cons k
  | @ifThen k l w r w' e s isOpen if_ left test right consequent ih =>
    intro π hw
    have hs := (ih π hw.tail.tail.right.tail).cons r
    exact (((test.spreads π hw.tail.tail.left).append hs hw.tail.tail).cons l).cons k
  | @ifElse k l w r w' j w'' e s s' isOpen isOpen' if_ left test right consequent closed else_
      alternative ih ih' =>
    intro π hw
    have hboth := hw.tail.tail.right.tail
    have hss := ((ih π hboth.left).append ((ih' π hboth.right.tail).cons j) hboth).cons r
    exact (((test.spreads π hw.tail.tail.left).append hss hw.tail.tail).cons l).cons k
  | firstVar decl ih => exact fun π hw ↦ (ih π hw).append_nil
  | firstExpr statement ih => exact fun π hw ↦ (ih π hw).append_nil
  | noFirst semicolon => exact fun π _ ↦ spread_nil _
  | @block l w r ss left body right ih =>
    exact fun π hw ↦ ((ih π hw.tail.left).mono (List.subset_append_left w [r])).cons l
  | absent => exact fun π _ ↦ spread_nil _
  | present value => exact value.spreads

end Grammar

/-! ### Errors of a program -/

namespace Scan

theorem rising_itemsFrom (line : Nat) (text : List Char) :
    (∀ t ∈ (itemsFrom line text).filterMap Item.token?, line ≤ t.line) ∧
      Token.Rising ((itemsFrom line text).filterMap Item.token?) := by
  induction line, text using itemsFrom.induct with
  | case1 line =>
    rw [itemsFrom]
    refine ⟨fun t ht ↦ ?_, List.pairwise_singleton _ _⟩
    obtain rfl := List.mem_singleton.1 ht
    exact Nat.le_refl _
  | case2 line c cs p last item hitem ih =>
    rw [itemsFrom]
    simp only [p, last] at hitem ih
    simp only [hitem]
    obtain ⟨hlater, hrising⟩ := ih
    have hle : line ≤ line + newlines (piece c cs).lexeme := Nat.le_add_right ..
    unfold Piece.item? at hitem
    split at hitem
    · cases hitem
    · cases hitem
      refine ⟨fun t ht ↦ ?_, List.pairwise_cons.2 ⟨hlater, hrising⟩⟩
      rcases List.mem_cons.1 ht with rfl | ht
      · exact hle
      · exact Nat.le_trans hle (hlater t ht)
    · cases hitem
      exact ⟨fun t ht ↦ Nat.le_trans hle (hlater t ht), hrising⟩
  | case3 line c cs p last hitem ih =>
    rw [itemsFrom]
    simp only [p, last] at hitem ih
    simp only [hitem]
    exact ⟨fun t ht ↦ Nat.le_trans (Nat.le_add_right ..) (ih.1 t ht), ih.2⟩

theorem rising_tokens (source : String) : Token.Rising (tokens source) :=
  (rising_itemsFrom 1 source.toList).2

end Scan

/-- What resolution reports of statements that were read without an error is in order exactly if
they are in turn. -/
theorem Reading.inOrder_iff_inTurn {source : String}
    (hclean : (Reading.ofTokens (Scan.tokens source)).diagnostics = []) :
    InOrder
        (Resolution.ofStatements (Reading.ofTokens (Scan.tokens source)).statements).diagnostics ↔
      Stmt.InTurnAll [] (Reading.ofTokens (Scan.tokens source)).statements := by
  obtain ⟨⟨w, hw⟩, hend⟩ :=
    Grammar.reads_declarations _ (Cursor.ofTokens (Scan.tokens source)) rfl
  have hsplit := hw.split
  rw [hend, List.append_nil] at hsplit
  have hrising : Token.Rising w := by
    rw [← hsplit]
    exact (Scan.rising_tokens source).sublist (List.takeWhile_sublist _)
  obtain ⟨hreported, hturn, -⟩ :=
    unnumbered_stmts [] (Reading.ofTokens (Scan.tokens source)).statements
  rw [Resolution.diagnostics_ofStatements, ← hreported, ← hturn]
  exact ((hw.derived (congrArg List.length hclean)).spreads [] hrising).inOrder_iff

namespace Program

theorem inOrder_byLine (ds : List Diagnostic) : InOrder (byLine ds) := by
  let le (d d' : Diagnostic) : Bool := decide (d.line ≤ d'.line)
  have htrans : ∀ a b c, le a b = true → le b c = true → le a c = true := fun a b c hab hbc ↦
    decide_eq_true (Nat.le_trans (of_decide_eq_true hab) (of_decide_eq_true hbc))
  have htotal : ∀ a b, (le a b || le b a) = true := fun a b ↦ by
    simp only [le, Bool.or_eq_true, decide_eq_true_eq]
    exact Nat.le_total a.line b.line
  exact (List.pairwise_mergeSort htrans htotal ds).imp of_decide_eq_true

theorem eq_error_of_faults {x : Except (List Diagnostic) Program} {ds : List Diagnostic}
    (h : (match x with | .error faults => some faults | .ok _ => none) = some ds) :
    x = .error ds := by
  cases x with
  | error faults => exact congrArg _ (Option.some.inj h)
  | ok p => cases h

theorem inOrder_iff_inTurn {source : String} {ds : List Diagnostic}
    (h : ofSource source = .error ds) :
    InOrder ds ↔
      (Scan.diagnostics source ++ (Reading.ofTokens (Scan.tokens source)).diagnostics = [] →
        Stmt.InTurnAll [] (Reading.ofTokens (Scan.tokens source)).statements) := by
  unfold ofSource at h
  dsimp only at h
  split at h
  next hfaultless =>
    split at h
    · cases h
    · cases h
      rw [Reading.inOrder_iff_inTurn (List.append_eq_nil_iff.1 hfaultless).2]
      exact ⟨fun h _ ↦ h, fun h ↦ h hfaultless⟩
  next hfaults =>
    cases h
    exact iff_of_true (inOrder_byLine _) fun hnone ↦ absurd hnone hfaults

end Program

namespace Run

variable {fuel : Nat} {clock : Clock} {sink : Sink} {source : String} {ds : List Diagnostic}

theorem ofSource_eq_rejected :
    ofSource fuel sink clock source = .rejected ds ↔ Program.ofSource source = .error ds := by
  unfold ofSource
  cases Program.ofSource source with
  | error faults => simp
  | ok p =>
    dsimp only
    refine iff_of_false ?_ nofun
    split <;> nofun

/-- Errors of the scanner and the parser always come in order of their lines, and errors of
resolution do exactly if the program is in turn. -/
theorem rejected_inOrder_iff (h : ofSource fuel sink clock source = .rejected ds) :
    InOrder ds ↔
      (Scan.diagnostics source ++ (Reading.ofTokens (Scan.tokens source)).diagnostics = [] →
        Stmt.InTurnAll [] (Reading.ofTokens (Scan.tokens source)).statements) :=
  Program.inOrder_iff_inTurn (ofSource_eq_rejected.1 h)

/-- The value that is given to a property is visited first, though it stands on a later line. -/
theorem rejects_later_line_first :
    ofSource 0 .unlimited .stopped "this.x =\nthis;" =
        .rejected [.resolution 2 .thisOutsideClass, .resolution 1 .thisOutsideClass] ∧
      ¬InOrder [.resolution 2 .thisOutsideClass, .resolution 1 .thisOutsideClass] :=
  ⟨ofSource_eq_rejected.2 (Program.eq_error_of_faults (by decide +kernel)), by decide⟩

theorem rejected_inOrder_iff_this :
    ∃ ds, ofSource 0 .unlimited .stopped "this.x =\nthis;" = .rejected ds ∧
      (InOrder ds ↔
        (Scan.diagnostics "this.x =\nthis;" ++
            (Reading.ofTokens (Scan.tokens "this.x =\nthis;")).diagnostics = [] →
          Stmt.InTurnAll [] (Reading.ofTokens (Scan.tokens "this.x =\nthis;")).statements)) := by
  have hrejected : ofSource 0 .unlimited .stopped "this.x =\nthis;" =
      .rejected [.resolution 2 .thisOutsideClass, .resolution 1 .thisOutsideClass] :=
    ofSource_eq_rejected.2 (Program.eq_error_of_faults (by decide +kernel))
  exact ⟨_, hrejected, rejected_inOrder_iff hrejected⟩

end Run

end Lox
