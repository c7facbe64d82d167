import Lox.Proofs.Grammar.ShiftedExpressions

/-!
Statements and declarations at another place. Each of them ends with a token of its own, except
that an `if` looks for an `else` behind it; where none can come from behind there, nothing that
comes after a declaration has a part in what it is.
-/

set_option autoImplicit false

namespace Lox.Grammar

open Shifts (shift)

variable {μ : Elsewhere} {c c' : Cursor} {n n' : Nat}

/-! ### Parts of statements -/

/-- A rule that goes on with a token is not told by what comes before it is read. -/
theorem open_expect {α : Type} {size : Nat} (hopen : ¬Settled μ c) (kind : Token.Kind)
    (cause : GrammarError) (less : c.size < size) (f : Token → α) :
    Open μ Closed (((c.expect kind cause).inside less).map f) :=
  Reply.ends_map (Reply.ends_inside (open_start hopen _))

theorem follows_optionalUntil (kind : Token.Kind) (cause : GrammarError) (h : Moved μ c c') :
    Follows μ Closed (optionalUntil kind cause c) (optionalUntil kind cause c') := by
  by_cases hsettled : Settled μ c
  swap
  · exact (open_start hsettled _).follows _
  unfold optionalUntil
  by_cases hclosing : c.sees kind = true
  · obtain ⟨t, -, hrest⟩ := Cursor.sees_iff.1 hclosing
    rw [dif_pos hclosing, dif_pos ((h.sees hsettled _).trans hclosing)]
    exact follows_done rfl (h.skip hrest)
  · rw [dif_neg hclosing, dif_neg fun hcall ↦ hclosing ((h.sees hsettled _).symm.trans hcall)]
    exact follows_bind (follows_expression h) (fun _ _ _ hopen ↦ open_expect hopen _ _ _ _)
      fun _ _ _ _ _ _ hnext ↦ follows_map (follows_inside (follows_expect hnext _ _)) fun _ ↦ rfl

theorem follows_expressionUntil (kind : Token.Kind) (cause : GrammarError) (h : Moved μ c c') :
    Follows μ Closed (expressionUntil kind cause c) (expressionUntil kind cause c') :=
  follows_bind (follows_expression h) (fun _ _ _ hopen ↦ open_expect hopen _ _ _ _)
    fun _ _ _ _ _ _ hnext ↦ follows_map (follows_inside (follows_expect hnext _ _)) fun _ ↦ rfl

theorem follows_expressionStatement (h : Moved μ c c') :
    Follows μ Closed (expressionStatement c) (expressionStatement c') :=
  follows_map (follows_expressionUntil _ _ h) fun _ ↦ rfl

theorem follows_printStatement (h : Moved μ c c') :
    Follows μ Closed (printStatement c) (printStatement c') :=
  follows_map (follows_expressionUntil _ _ h) fun _ ↦ rfl

theorem follows_returnStatement (line : Nat) (h : Moved μ c c') :
    Follows μ Closed (returnStatement line c) (returnStatement (line + μ.lines) c') :=
  follows_map (follows_optionalUntil _ _ h) fun _ ↦ rfl

theorem follows_condition (opening : GrammarError) (h : Moved μ c c') :
    Follows μ Closed (condition opening c) (condition opening c') :=
  follows_bind_closed (follows_expect h _ _) fun _ _ _ _ _ hnext ↦
    follows_inside (follows_expressionUntil _ _ hnext)

theorem follows_varDeclaration (h : Moved μ c c') :
    Follows μ Closed (varDeclaration c) (varDeclaration c') := by
  refine follows_bind_closed (follows_expectName h _)
    fun name next shorter next' shorter' hnext ↦ ?_
  by_cases hsettled : Settled μ next
  swap
  · rw [if_neg (not_sees hsettled _)]
    exact (open_expect hsettled _ _ _ _).follows _
  rw [hnext.sees hsettled]
  split
  next hequal =>
    obtain ⟨t, -, hrest⟩ := Cursor.sees_iff.1 hequal
    exact follows_map (follows_inside (follows_expressionUntil _ _ (hnext.skip hrest))) fun _ ↦ rfl
  next => exact follows_map (follows_inside (follows_expect hnext _ _)) fun _ ↦ rfl

/-! ### Routines and classes -/

theorem follows_names (N : Nat) (h : Moved μ c c') (hN : c.size = N) :
    Follows μ (Settled μ) (names c) (names c') := by
  induction N using Nat.strongRecOn generalizing c c' with
  | ind N ih =>
    rw [names, names]
    refine follows_bind_closed (follows_expectName h _)
      fun first next shorter next' shorter' hnext ↦ ?_
    by_cases hsettled : Settled μ next
    swap
    · rw [if_neg (not_sees hsettled _)]
      exact Open.follows (r := .done [first] next shorter) hsettled _
    rw [hnext.sees hsettled]
    split
    next hcomma =>
      obtain ⟨t, -, hrest⟩ := Cursor.sees_iff.1 hcomma
      exact follows_map (follows_inside (ih _ (hN ▸ Cursor.skip_lt_size shorter) (hnext.skip hrest)
        rfl)) fun _ ↦ rfl
    next => exact follows_done rfl hnext

theorem follows_parameters (h : Moved μ c c') :
    Follows μ Closed (parameters c) (parameters c') := by
  by_cases hsettled : Settled μ c
  swap
  · exact (open_start hsettled _).follows _
  unfold parameters
  by_cases hclosing : c.sees .rightParen = true
  · obtain ⟨t, -, hrest⟩ := Cursor.sees_iff.1 hclosing
    rw [dif_pos hclosing, dif_pos ((h.sees hsettled _).trans hclosing)]
    exact follows_done rfl (h.skip hrest)
  · rw [dif_neg hclosing, dif_neg fun hcall ↦ hclosing ((h.sees hsettled _).symm.trans hcall)]
    exact follows_bind (follows_names _ h rfl) (fun _ _ _ hopen ↦ open_expect hopen _ _ _ _)
      fun _ _ _ _ _ _ hnext ↦ follows_map (follows_inside (follows_expect hnext _ _)) fun _ ↦ rfl

/-- The rules for shorter texts, here and there. -/
structure RulesShifted (μ : Elsewhere) (rules : Rules n) (rules' : Rules n') : Prop where
  statement : ∀ {c c'} (less : c.size < n) (less' : c'.size < n'), Moved μ c c' →
    Follows μ Closed (rules.statement c less) (rules'.statement c' less')
  block : ∀ {c c'} (less : c.size < n) (less' : c'.size < n'), Moved μ c c' →
    Follows μ Closed (rules.block c less) (rules'.block c' less')

section

variable {rules : Rules n} {rules' : Rules n'} (hrules : RulesShifted μ rules rules')

include hrules

theorem follows_routine (kind : RoutineKind) (within : c.size ≤ n) (within' : c'.size ≤ n')
    (h : Moved μ c c') :
    Follows μ Closed (routine rules kind c within) (routine rules' kind c' within') := by
  refine follows_bind_closed (follows_expectName h _) fun name _ _ _ _ h₁ ↦ ?_
  refine follows_andThen_closed (follows_expect h₁ _ _) fun _ _ _ _ _ _ _ h₂ ↦ ?_
  refine follows_andThen_closed (follows_parameters h₂) fun params _ _ _ _ _ _ h₃ ↦ ?_
  refine follows_andThen_closed (follows_expect h₃ _ _) fun _ _ _ _ _ _ _ h₄ ↦ ?_
  exact follows_map (follows_inside (hrules.block _ _ h₄)) fun _ ↦ rfl

theorem follows_methods (N : Nat) (within : c.size ≤ n) (within' : c'.size ≤ n')
    (h : Moved μ c c') (hN : c.size = N) :
    Follows μ Closed (methods rules c within) (methods rules' c' within') := by
  induction N using Nat.strongRecOn generalizing c c' with
  | ind N ih =>
    by_cases hsettled : Settled μ c
    swap
    · exact (open_start hsettled _).follows _
    have hstops := h.stops hsettled .rightBrace
    rw [methods, methods]
    by_cases hstop : c.sees .rightBrace = true ∨ c.size = 0
    · rw [if_pos hstop, if_pos (hstops.2 hstop)]
      exact follows_map (follows_expect h _ _) fun _ ↦ rfl
    · rw [if_neg hstop, if_neg fun hthere ↦ hstop (hstops.1 hthere)]
      exact follows_bind_closed (follows_routine hrules _ _ _ h)
        fun _ _ shorter _ _ hnext ↦
          follows_map (follows_inside (ih _ (hN ▸ shorter) _ _ hnext rfl)) fun _ ↦ rfl

theorem follows_classBody (name : Name) (superclass : Option Superclass) (less : c.size < n)
    (less' : c'.size < n') (h : Moved μ c c') :
    Follows μ Closed (classBody rules name superclass c less)
      (classBody rules' (name.shift μ.toShift) (superclass.map (Superclass.shift μ.toShift)) c'
        less') :=
  follows_bind_closed (follows_expect h _ _) fun _ _ _ _ _ hnext ↦
    follows_map (follows_inside (follows_methods hrules _ _ _ hnext rfl)) fun _ ↦ rfl

theorem follows_classDeclaration (within : c.size ≤ n) (within' : c'.size ≤ n')
    (h : Moved μ c c') :
    Follows μ Closed (classDeclaration rules c within) (classDeclaration rules' c' within') := by
  refine follows_bind_closed (follows_expectName h _)
    fun name next shorter next' shorter' hnext ↦ ?_
  by_cases hsettled : Settled μ next
  swap
  · rw [if_neg (not_sees hsettled _)]
    exact Open.follows (Reply.ends_inside (open_start hsettled _)) _
  rw [hnext.sees hsettled]
  split
  next hless =>
    obtain ⟨t, -, hrest⟩ := Cursor.sees_iff.1 hless
    refine follows_andThen_closed (follows_expectName (hnext.skip hrest) _)
      fun parent last _ less last' _ less' hlast ↦ ?_
    have hbody := follows_classBody hrules name (some ⟨last.nextId, parent⟩)
      (Cursor.lt_of_lt_of_le (a := last.draw) less within)
      (Cursor.lt_of_lt_of_le (a := last'.draw) less' within') hlast.draw
    rw [hlast.nextId]
    exact follows_inside hbody
  next => exact follows_inside (follows_classBody hrules name none _ _ hnext)

/-! ### Statements -/

omit hrules in
theorem sees_else (helse : ∀ t ∈ μ.behind.head?, t.kind ≠ .else_) (h : Moved μ c c') :
    c'.sees .else_ = c.sees .else_ := by
  unfold Cursor.sees
  cases hrest : c.rest with
  | nil =>
    rw [h.rest, hrest, List.map_nil, List.nil_append]
    cases hbehind : μ.behind with
    | nil => rfl
    | cons t rest => exact decide_eq_false (helse t (by rw [hbehind]; rfl))
  | cons t rest =>
    rw [h.rest_cons hrest]
    rfl

variable (helse : ∀ t ∈ μ.behind.head?, t.kind ≠ .else_)

include helse

theorem follows_ifStatement (within : c.size ≤ n) (within' : c'.size ≤ n') (h : Moved μ c c') :
    Follows μ Closed (ifStatement rules c within) (ifStatement rules' c' within') := by
  refine follows_bind_closed (follows_condition _ h) fun test _ _ _ _ hnext ↦ ?_
  refine follows_andThen_closed (hrules.statement _ _ hnext)
    fun consequent last _ less last' _ less' hlast ↦ ?_
  rw [sees_else helse hlast]
  split
  next helse =>
    obtain ⟨t, -, hrest⟩ := Cursor.sees_iff.1 helse
    exact follows_map (follows_inside (hrules.statement _ _ (hlast.skip hrest))) fun _ ↦ rfl
  next => exact follows_done rfl hlast

omit helse in
theorem follows_whileStatement (within : c.size ≤ n) (within' : c'.size ≤ n') (h : Moved μ c c') :
    Follows μ Closed (whileStatement rules c within) (whileStatement rules' c' within') :=
  follows_bind_closed (follows_condition _ h) fun _ _ _ _ _ hnext ↦
    follows_map (follows_inside (hrules.statement _ _ hnext)) fun _ ↦ rfl

omit hrules helse in
theorem follows_forInitializer (h : Moved μ c c') :
    Follows μ Closed (forInitializer c) (forInitializer c') := by
  by_cases hsettled : Settled μ c
  swap
  · exact (open_start hsettled _).follows _
  have hsees := h.sees hsettled
  unfold forInitializer
  by_cases hsemicolon : c.sees .semicolon = true
  · obtain ⟨t, -, hrest⟩ := Cursor.sees_iff.1 hsemicolon
    rw [dif_pos hsemicolon, dif_pos ((hsees _).trans hsemicolon)]
    exact follows_done rfl (h.skip hrest)
  rw [dif_neg hsemicolon, dif_neg fun hthere ↦ hsemicolon ((hsees _).symm.trans hthere)]
  by_cases hvar : c.sees .var = true
  · obtain ⟨t, -, hrest⟩ := Cursor.sees_iff.1 hvar
    rw [dif_pos hvar, dif_pos ((hsees _).trans hvar)]
    exact follows_map (follows_inside (follows_varDeclaration (h.skip hrest))) fun _ ↦ rfl
  rw [dif_neg hvar, dif_neg fun hthere ↦ hvar ((hsees _).symm.trans hthere)]
  exact follows_map (follows_expressionStatement h) fun _ ↦ rfl

omit hrules helse in
theorem forLoop_shift (δ : Shift) (initial : Option Stmt) (test increment : Option Expr)
    (body : Stmt) :
    forLoop (initial.map (Stmt.shift δ)) (test.map (Expr.shift δ)) (increment.map (Expr.shift δ))
      (body.shift δ) = (forLoop initial test increment body).shift δ := by
  cases initial <;> cases test <;> cases increment <;> rfl

omit helse in
theorem follows_forStatement (within : c.size ≤ n) (within' : c'.size ≤ n') (h : Moved μ c c') :
    Follows μ Closed (forStatement rules c within) (forStatement rules' c' within') := by
  refine follows_bind_closed (follows_expect h _ _) fun _ _ _ _ _ h₁ ↦ ?_
  refine follows_andThen_closed (follows_forInitializer h₁) fun initial _ _ _ _ _ _ h₂ ↦ ?_
  refine follows_andThen_closed (follows_optionalUntil _ _ h₂) fun test _ _ _ _ _ _ h₃ ↦ ?_
  refine follows_andThen_closed (follows_optionalUntil _ _ h₃) fun increment _ _ _ _ _ _ h₄ ↦ ?_
  exact follows_map (follows_inside (hrules.statement _ _ h₄))
    fun body ↦ forLoop_shift μ.toShift initial test increment body

/-- What a keyword or a brace begins: neither here nor there, or the same at both places. -/
def FollowsOptional (μ : Elsewhere) : Option (Reply n Stmt) → Option (Reply n' Stmt) → Prop
  | none, none => True
  | some r, some r' => Follows μ Closed r r'
  | _, _ => False

theorem follows_statementAfter (t : Token) (less : c.size < n) (less' : c'.size < n')
    (h : Moved μ c c') :
    FollowsOptional μ (statementAfter? rules t c less)
      (statementAfter? rules' (t.later μ.lines) c' less') := by
  obtain ⟨kind, lexeme, line⟩ := t
  cases kind with
  | for_ => exact follows_forStatement hrules _ _ h
  | if_ => exact follows_ifStatement hrules helse _ _ h
  | while_ => exact follows_whileStatement hrules _ _ h
  | return_ => exact follows_returnStatement line h
  | leftBrace => exact follows_map (hrules.block _ _ h) fun _ ↦ rfl
  | print => exact follows_printStatement h
  | _ => trivial

theorem follows_statementWith (within : c.size ≤ n) (within' : c'.size ≤ n') (h : Moved μ c c') :
    Follows μ Closed (statementWith rules c within) (statementWith rules' c' within') := by
  by_cases hsettled : Settled μ c
  swap
  · exact (open_start hsettled _).follows _
  rcases hsettled.cases h with ⟨t, rest, hrest⟩ | ⟨hrest, hrest'⟩
  swap
  · rw [statementWith_nil hrest, statementWith_nil hrest']
    exact follows_expressionStatement h
  have hrest' := h.rest_cons hrest
  have hafter := follows_statementAfter hrules helse t (Cursor.skip_lt_of_cons hrest within)
    (Cursor.skip_lt_of_cons hrest' within') (h.skip hrest)
  rw [statementWith_cons hrest, statementWith_cons hrest']
  revert hafter
  cases statementAfter? rules t c.skip _ <;>
    cases statementAfter? rules' (t.later μ.lines) c'.skip _ <;> intro hafter
  · exact follows_expressionStatement h
  · exact hafter.elim
  · exact hafter.elim
  · exact follows_inside hafter

omit helse in
theorem follows_declarationAfter (t : Token) (less : c.size < n) (less' : c'.size < n')
    (h : Moved μ c c') :
    FollowsOptional μ (declarationAfter? rules t c less)
      (declarationAfter? rules' (t.later μ.lines) c' less') := by
  obtain ⟨kind, lexeme, line⟩ := t
  cases kind with
  | class_ => exact follows_classDeclaration hrules _ _ h
  | fun_ => exact follows_map (follows_routine hrules _ _ _ h) fun _ ↦ rfl
  | var => exact follows_varDeclaration h
  | _ => trivial

theorem follows_declarationWith (within : c.size ≤ n) (within' : c'.size ≤ n') (h : Moved μ c c') :
    Follows μ Closed (declarationWith rules c within) (declarationWith rules' c' within') := by
  by_cases hsettled : Settled μ c
  swap
  · exact (open_start hsettled _).follows _
  have hstatement := follows_statementWith hrules helse within within' h
  rcases hsettled.cases h with ⟨t, rest, hrest⟩ | ⟨hrest, hrest'⟩
  swap
  · rw [declarationWith_nil hrest, declarationWith_nil hrest']
    exact hstatement
  have hrest' := h.rest_cons hrest
  have hafter := follows_declarationAfter hrules t (Cursor.skip_lt_of_cons hrest within)
    (Cursor.skip_lt_of_cons hrest' within') (h.skip hrest)
  rw [declarationWith_cons hrest, declarationWith_cons hrest']
  revert hafter
  cases declarationAfter? rules t c.skip _ <;>
    cases declarationAfter? rules' (t.later μ.lines) c'.skip _ <;> intro hafter
  · exact hstatement
  · exact hafter.elim
  · exact hafter.elim
  · exact follows_inside hafter

/-! ### Sequences of declarations -/

omit hrules helse in
theorem resumeAfter_append (previous : Token) (ts behind : List Token) (lines : Nat)
    (h : resumeAfter previous ts ≠ [] ∨ behind = []) :
    resumeAfter (previous.later lines) (ts.map (Token.later lines) ++ behind) =
      (resumeAfter previous ts).map (Token.later lines) ++ behind := by
  induction ts generalizing previous with
  | nil =>
    rw [h.resolve_left fun hsome ↦ hsome rfl]
    rfl
  | cons t ts ih =>
    rw [resumeAfter] at h ⊢
    rw [List.map_cons, List.cons_append, resumeAfter]
    change (if previous.kind = .semicolon ∨ beginsStatement t = true then _ else _) = _
    by_cases hstop : previous.kind = .semicolon ∨ beginsStatement t = true
    · rw [if_pos hstop, if_pos hstop]
      rfl
    · rw [if_neg hstop] at h ⊢
      rw [if_neg hstop]
      exact ih t h

omit hrules helse in
/-- Reading goes on at the same token, or comes to the end of input at both places. -/
theorem Moved.afterError (h : Moved μ c c') (cause : Diagnostic)
    (hsettled : Settled μ (afterError c cause)) :
    Moved μ (afterError c cause) (afterError c' (cause.later μ.lines)) where
  rest := by
    change resume c.rest ≠ [] ∨ μ.ends at hsettled
    change resume c'.rest = (resume c.rest).map _ ++ _
    have hbehind := hsettled.imp_right fun hends ↦ (h.ending hends).1
    cases hrest : c.rest with
    | nil =>
      rw [hrest] at hbehind
      have hnil := hbehind.resolve_left fun hsome ↦ hsome rfl
      rw [h.rest, hrest, hnil]
      rfl
    | cons t rest =>
      rw [h.rest_cons hrest]
      rw [hrest] at hbehind
      exact resumeAfter_append t rest μ.behind μ.lines hbehind
  nextId := h.nextId
  reports := (h.report cause).reports
  endLine := h.endLine
  ending := h.ending

omit hrules helse in
theorem recover_shifted {r : Reply n Stmt} {r' : Reply n' Stmt} (h : Follows μ Closed r r')
    (pos : 0 < n) (pos' : 0 < n') (hsettled : Settled μ (recover r pos).next) :
    (recover r' pos').value = (recover r pos).value.map (Stmt.shift μ.toShift) ∧
      Moved μ (recover r pos).next (recover r' pos').next := by
  cases r with
  | done s next less =>
    cases r' with
    | done s' next' less' =>
      obtain ⟨rfl, hnext⟩ := h trivial
      exact ⟨rfl, hnext⟩
    | failed cause' next' notLonger' => exact absurd trivial h
  | failed cause next notLonger =>
    have hhere : Settled μ next := hsettled.imp_left fun hsome hnil ↦ hsome (by
      change resume next.rest = []
      rw [hnil]
      rfl)
    cases r' with
    | done s' next' less' => exact absurd hhere h
    | failed cause' next' notLonger' =>
      obtain ⟨rfl, hnext⟩ := h hhere
      exact ⟨rfl, hnext.afterError cause hsettled⟩

omit hrules helse in
theorem shiftAll_toList (δ : Shift) (s : Option Stmt) (ss : List Stmt) :
    (s.map (Stmt.shift δ)).toList ++ Stmt.shiftAll δ ss = Stmt.shiftAll δ (s.toList ++ ss) := by
  cases s <;> rfl

theorem follows_blockWith (N : Nat) (within : c.size ≤ n) (within' : c'.size ≤ n')
    (h : Moved μ c c') (hN : c.size = N) :
    Follows μ Closed (blockWith rules c within) (blockWith rules' c' within') := by
  induction N using Nat.strongRecOn generalizing c c' with
  | ind N ih =>
    by_cases hsettled : Settled μ c
    swap
    · exact (open_start hsettled _).follows _
    have hstops := h.stops hsettled .rightBrace
    rw [blockWith, blockWith]
    by_cases hstop : c.sees .rightBrace = true ∨ c.size = 0
    · rw [dif_pos hstop, dif_pos (hstops.2 hstop)]
      exact follows_map (follows_expect h _ _) fun _ ↦ rfl
    have hstop' : ¬(c'.sees .rightBrace = true ∨ c'.size = 0) :=
      fun hthere ↦ hstop (hstops.1 hthere)
    rw [dif_neg hstop, dif_neg hstop']
    have hfirst := follows_declarationWith hrules helse within within' h
    have hshorter := (recover (declarationWith rules c within) (Cursor.size_pos hstop)).shorter
    by_cases hnext :
        Settled μ (recover (declarationWith rules c within) (Cursor.size_pos hstop)).next
    · obtain ⟨hvalue, hmoved⟩ := recover_shifted hfirst (Cursor.size_pos hstop)
        (Cursor.size_pos hstop') hnext
      refine follows_map (follows_inside (ih _ (hN ▸ hshorter) _ _ hmoved rfl)) fun others ↦ ?_
      rw [hvalue]
      exact shiftAll_toList μ.toShift _ others
    · exact Open.follows (Reply.ends_map (Reply.ends_inside (open_start hnext _))) _

end

theorem follows_rules (helse : ∀ t ∈ μ.behind.head?, t.kind ≠ .else_) (n n' : Nat) :
    RulesShifted μ (rules n) (rules n') := by
  induction n using Nat.strongRecOn generalizing n' with
  | ind n ih =>
    rw [rules, rules]
    exact ⟨fun {c c'} less _ h ↦
        follows_statementWith (ih _ less c'.size) helse c.le_self c'.le_self h,
      fun {c c'} less _ h ↦
        follows_blockWith (ih _ less c'.size) helse _ c.le_self c'.le_self h rfl⟩

theorem follows_declaration (helse : ∀ t ∈ μ.behind.head?, t.kind ≠ .else_) (h : Moved μ c c') :
    Follows μ Closed (declaration c) (declaration c') :=
  follows_declarationWith (follows_rules helse _ _) helse _ _ h

/-- Where reading reports nothing, it reads what it has read so far and then goes on behind it. -/
theorem declarations_shifted (helse : ∀ t ∈ μ.behind.head?, t.kind ≠ .else_) (N : Nat)
    (h : Moved μ c c') (hN : c.size = N)
    (hclean : (declarations c).2.reports.length = c.reports.length) :
    ∃ m, Moved μ (declarations c).2 m ∧ declarations c' =
      (Stmt.shiftAll μ.toShift (declarations c).1 ++ (declarations m).1, (declarations m).2) := by
  induction N using Nat.strongRecOn generalizing c c' with
  | ind N ih =>
    rw [declarations] at hclean ⊢
    by_cases hnone : c.size = 0
    · rw [dif_pos hnone]
      exact ⟨c', h, rfl⟩
    have hsome' : ¬c'.size = 0 := fun hnone' ↦ hnone (by
      have hrest := List.length_eq_zero_iff.1 hnone'
      rw [h.rest, List.append_eq_nil_iff, List.map_eq_nil_iff] at hrest
      exact List.length_eq_zero_iff.2 hrest.1)
    rw [dif_neg hnone] at hclean ⊢
    have hfirst := follows_declaration helse h
    have hsound := sound_declarationWith (sound_rules c.size) c c.le_self
    change Sound _ c (declaration c) at hsound
    have hreports : ∀ d, d.reports.length ≤ (declarations d).2.reports.length := fun d ↦ by
      obtain ⟨⟨w, hw⟩, -⟩ := reads_declarations _ d rfl
      exact hw.reports
    rw [declarations, dif_neg hsome']
    revert hfirst hsound hclean
    cases declaration c with
    | failed cause next notLonger =>
      intro hclean hfirst hsound
      obtain ⟨w, hw⟩ := hsound
      have hless := hw.reports
      have hlater := hreports (afterError next cause)
      have hreported : (afterError next cause).reports.length = next.reports.length + 1 := by
        simp [afterError, Cursor.report]
      change (declarations (afterError next cause)).2.reports.length = _ at hclean
      omega
    | done s next less =>
      intro hclean hfirst hsound
      obtain ⟨w, hw⟩ := hsound
      have hless := hw.reports
      have hlater := hreports next
      change (declarations next).2.reports.length = _ at hclean
      revert hfirst
      cases declaration c' with
      | failed cause' next' notLonger' => exact fun hfirst ↦ absurd trivial hfirst
      | done s' next' less' =>
        intro hfirst
        obtain ⟨rfl, hnext⟩ := hfirst trivial
        obtain ⟨m, hm, hread⟩ := ih _ (hN ▸ less) hnext rfl (by omega)
        refine ⟨m, hm, ?_⟩
        change ([s.shift μ.toShift] ++ (declarations next').1, (declarations next').2) = _
        rw [hread]
        rfl

/-- Up to the end of input, what is read there is what is read here. -/
theorem declarations_moved (hends : μ.ends) (N : Nat) (h : Moved μ c c') (hN : c.size = N) :
    (declarations c').1 = Stmt.shiftAll μ.toShift (declarations c).1 ∧
      Moved μ (declarations c).2 (declarations c').2 := by
  have helse : ∀ t ∈ μ.behind.head?, t.kind ≠ .else_ := by
    intro t ht
    rw [(h.ending hends).1] at ht
    cases ht
  induction N using Nat.strongRecOn generalizing c c' with
  | ind N ih =>
    have hzero := h.size_eq_zero (.inr hends)
    by_cases hnone : c.size = 0
    · rw [declarations_none (List.length_eq_zero_iff.1 hnone),
        declarations_none (List.length_eq_zero_iff.1 (hzero.2 hnone))]
      exact ⟨rfl, h⟩
    have hnone' : ¬c'.size = 0 := fun hthere ↦ hnone (hzero.1 hthere)
    rw [declarations_some hnone, declarations_some hnone']
    obtain ⟨hvalue, hmoved⟩ := recover_shifted (follows_declaration helse h)
      (Nat.pos_of_ne_zero hnone) (Nat.pos_of_ne_zero hnone') (.inr hends)
    have hshorter := (recover (declaration c) (Nat.pos_of_ne_zero hnone)).shorter
    obtain ⟨hothers, hlast⟩ := ih _ (Nat.lt_of_lt_of_eq hshorter hN) hmoved rfl
    refine ⟨?_, hlast⟩
    rw [hothers, hvalue]
    exact shiftAll_toList μ.toShift _ _

end Lox.Grammar
