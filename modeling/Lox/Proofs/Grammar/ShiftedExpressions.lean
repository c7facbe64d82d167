import Lox.Proofs.Grammar.CompleteExpressions
import Lox.Proofs.Grammar.Shifting

/-!
The rules for expressions at another place. What they answer depends on what comes after it, since
an operator, a suffix or an equals sign may go on with it; so each of them is followed only where it
is settled what comes next.
-/

set_option autoImplicit false

namespace Lox.Grammar

open Shifts (shift)

variable {μ : Elsewhere} {c c' : Cursor} {n n' : Nat}

/-! ### Levels -/

theorem joiner_later (k : Level) (t : Token) (lines : Nat) :
    (k.joiner t = none → k.joiner (t.later lines) = none) ∧
      ∀ f, k.joiner t = some f → ∃ f', k.joiner (t.later lines) = some f' ∧
        ∀ (δ : Shift), δ.lines = lines → ∀ l r, f' (l.shift δ) (r.shift δ) = (f l r).shift δ := by
  obtain ⟨kind, lexeme, line⟩ := t
  refine ⟨fun hnone ↦ ?_, fun f hf ↦ ?_⟩
  · cases k <;> cases kind <;> first | rfl | cases hnone
  · cases k <;> cases kind <;> cases hf <;> exact ⟨_, rfl, by rintro δ rfl l r; rfl⟩

/-- Two rules, here and there. -/
def RulesFollow (μ : Elsewhere) (rule : UpTo n Expr) (rule' : UpTo n' Expr) : Prop :=
  ∀ c c' within within', Moved μ c c' →
    Follows μ (Settled μ) (rule c within) (rule' c' within')

theorem open_chainFrom {joiner : Joiner} {size : Nat} (operand : UpTo n Expr) (left : Expr)
    (within : c.size ≤ n) (less : c.size < size) (hopen : ¬Settled μ c) :
    Open μ (Settled μ) (chainFrom joiner operand left c within less) := by
  have hnone : c.rest.head?.bind joiner = none := by rw [not_settled hopen]; rfl
  rw [chainFrom, hnone]
  exact hopen

theorem follows_chainFrom (k : Level) {operand : UpTo n Expr} {operand' : UpTo n' Expr}
    (hoperand : RulesFollow μ operand operand') (N : Nat) (left : Expr) {size size' : Nat}
    (within : c.size ≤ n) (less : c.size < size) (within' : c'.size ≤ n') (less' : c'.size < size')
    (h : Moved μ c c') (hN : c.size = N) :
    Follows μ (Settled μ) (chainFrom k.joiner operand left c within less)
      (chainFrom k.joiner operand' (left.shift μ.toShift) c' within' less') := by
  induction N using Nat.strongRecOn generalizing c c' left with
  | ind N ih =>
    by_cases hsettled : Settled μ c
    swap
    · exact (open_chainFrom operand left within less hsettled).follows _
    rcases hsettled.cases h with ⟨t, rest, hrest⟩ | ⟨hrest, hrest'⟩
    swap
    · rw [chainFrom, chainFrom, hrest, hrest']
      exact follows_done rfl h
    rw [chainFrom, chainFrom, h.rest_cons hrest, hrest]
    obtain ⟨hnone, hsome⟩ := joiner_later k t μ.lines
    simp only [List.head?_cons, Option.bind_some]
    cases hjoin : k.joiner t with
    | none =>
      rw [hnone hjoin]
      exact follows_done rfl h
    | some f =>
      obtain ⟨f', hf', hshift⟩ := hsome f hjoin
      rw [hf']
      refine follows_andThen (hoperand _ _ _ _ (h.skip hrest))
        (fun _ _ _ _ hopen ↦ open_chainFrom _ _ _ _ hopen)
        fun right after shorter less after' shorter' less' _ hafter ↦ ?_
      have hleft := hshift μ.toShift rfl left right
      have hnext := ih _ (hN ▸ Cursor.lt_of_lt_skip shorter) (f left right)
        (Cursor.le_of_lt_skip shorter within) less (Cursor.le_of_lt_skip shorter' within') less'
        hafter rfl
      rw [← hleft] at hnext
      exact hnext

theorem follows_chain (k : Level) {operand : UpTo n Expr} {operand' : UpTo n' Expr}
    (hoperand : RulesFollow μ operand operand') :
    RulesFollow μ (chain k.joiner operand) (chain k.joiner operand') :=
  fun c c' within within' h ↦ follows_bind (hoperand c c' within within' h)
    (fun _ _ _ hopen ↦ open_chainFrom _ _ _ _ hopen)
    fun left _ less _ less' _ hafter ↦
      follows_chainFrom k hoperand _ left _ less _ less' hafter rfl

/-! ### Expressions within expressions -/

section

variable {expression : Below n Expr} {expression' : Below n' Expr}
  (hexpression : ∀ c c' less less', Moved μ c c' →
    Follows μ (Settled μ) (expression c less) (expression' c' less'))

include hexpression

theorem follows_expressions (N : Nat) (less : c.size < n) (less' : c'.size < n')
    (h : Moved μ c c') (hN : c.size = N) :
    Follows μ (Settled μ) (expressions expression c less) (expressions expression' c' less') := by
  induction N using Nat.strongRecOn generalizing c c' with
  | ind N ih =>
    rw [expressions, expressions]
    refine follows_bind (hexpression c c' less less' h) (fun first next shorter hopen ↦ ?_)
      fun first next shorter next' shorter' hsettled hnext ↦ ?_
    · rw [if_neg (not_sees hopen _)]
      exact hopen
    · rw [hnext.sees hsettled]
      split
      next hcomma =>
        obtain ⟨t, -, hrest⟩ := Cursor.sees_iff.1 hcomma
        exact follows_map (follows_inside (ih _ (hN ▸ Cursor.skip_lt_size shorter) _ _
          (hnext.skip hrest) rfl)) fun _ ↦ rfl
      next => exact follows_done rfl hnext

theorem follows_arguments (less : c.size < n) (less' : c'.size < n') (h : Moved μ c c') :
    Follows μ Closed (arguments expression c less) (arguments expression' c' less') := by
  by_cases hsettled : Settled μ c
  swap
  · exact (open_start hsettled _).follows _
  unfold arguments
  rw [h.sees hsettled]
  split
  · exact follows_map (follows_expect h _ _) fun _ ↦ rfl
  · exact follows_bind (follows_expressions hexpression _ less less' h rfl)
      (fun _ _ _ hopen ↦ Reply.ends_map (Reply.ends_inside (open_start hopen _)))
      fun _ _ _ _ _ _ hnext ↦
        follows_map (follows_inside (follows_expect hnext _ _)) fun _ ↦ rfl

omit hexpression in
theorem follows_superAccess (line : Nat) (h : Moved μ c c') :
    Follows μ Closed (superAccess line c) (superAccess (line + μ.lines) c') := by
  refine follows_bind_closed (follows_expect h _ _) fun _ next shorter next' shorter' hnext ↦ ?_
  refine follows_andThen_closed (follows_expectName hnext _)
    fun method after _ _ after' _ _ hafter ↦ ?_
  exact follows_done (by rw [hafter.nextId]; rfl) hafter.draw

theorem follows_grouping (less : c.size < n) (less' : c'.size < n') (h : Moved μ c c') :
    Follows μ Closed (grouping expression c less) (grouping expression' c' less') :=
  follows_bind (hexpression c c' less less' h)
    (fun _ _ _ hopen ↦ Reply.ends_map (Reply.ends_inside (open_start hopen _)))
    fun _ _ _ _ _ _ hnext ↦ follows_map (follows_inside (follows_expect hnext _ _)) fun _ ↦ rfl

theorem follows_primary (within : c.size ≤ n) (within' : c'.size ≤ n') (h : Moved μ c c') :
    Follows μ Closed (primary expression c within) (primary expression' c' within') := by
  by_cases hsettled : Settled μ c
  swap
  · exact (open_start hsettled _).follows _
  rcases hsettled.cases h with ⟨t, rest, hrest⟩ | ⟨hrest, hrest'⟩
  swap
  · rw [primary_nil hrest, primary_nil hrest']
    exact follows_fail h _
  rw [primary_cons hrest, primary_cons (h.rest_cons hrest)]
  have hskip := h.skip hrest
  have hid := h.nextId
  obtain ⟨kind, lexeme, line⟩ := t
  unfold primaryOf
  cases kind with
  | false | true | nil | number | string => exact follows_done rfl hskip
  | identifier | this => exact follows_done (by rw [hid]; rfl) hskip.draw
  | super => exact follows_inside (follows_superAccess line hskip)
  | leftParen => exact follows_inside (follows_grouping hexpression _ _ hskip)
  | _ => exact follows_fail h _

theorem follows_suffixesFrom (N : Nat) (target : Expr) {size size' : Nat} (within : c.size ≤ n)
    (less : c.size < size) (within' : c'.size ≤ n') (less' : c'.size < size') (h : Moved μ c c')
    (hN : c.size = N) :
    Follows μ (Settled μ) (suffixesFrom expression target c within less)
      (suffixesFrom expression' (target.shift μ.toShift) c' within' less') := by
  induction N using Nat.strongRecOn generalizing c c' target with
  | ind N ih =>
    rw [suffixesFrom, suffixesFrom]
    by_cases hsettled : Settled μ c
    swap
    · rw [dif_neg (not_sees hsettled _), if_neg (not_sees hsettled _)]
      exact Open.follows (r := .done target c less) hsettled _
    by_cases hcall : c.sees .leftParen
    · obtain ⟨t, -, hrest⟩ := Cursor.sees_iff.1 hcall
      rw [dif_pos hcall, dif_pos ((h.sees hsettled _).trans hcall)]
      refine follows_andThen_closed (follows_arguments hexpression _ _ (h.skip hrest))
        fun values after shorter less after' shorter' less' hafter ↦ ?_
      exact ih _ (hN ▸ Cursor.lt_of_lt_skip shorter) (.call target values.2 values.1) _ less _ less'
        hafter rfl
    rw [dif_neg hcall, dif_neg fun hcall' ↦ hcall ((h.sees hsettled _).symm.trans hcall'),
      h.sees hsettled]
    split
    next hdot =>
      obtain ⟨t, -, hrest⟩ := Cursor.sees_iff.1 hdot
      refine follows_andThen_closed (follows_expectName (h.skip hrest) _)
        fun name after shorter less after' shorter' less' hafter ↦ ?_
      exact ih _ (hN ▸ Cursor.lt_of_lt_skip shorter) (.get target name) _ less _ less' hafter rfl
    next => exact follows_done rfl h

theorem follows_call : RulesFollow μ (call expression) (call expression') :=
  fun _ _ within within' h ↦ follows_bind_closed (follows_primary hexpression within within' h)
    fun target _ shorter _ shorter' hnext ↦
      follows_suffixesFrom hexpression _ target _ shorter _ shorter' hnext rfl

theorem follows_unary_of_size (N : Nat) (within : c.size ≤ n) (within' : c'.size ≤ n')
    (h : Moved μ c c') (hN : c.size = N) :
    Follows μ (Settled μ) (unary expression c within) (unary expression' c' within') := by
  induction N using Nat.strongRecOn generalizing c c' with
  | ind N ih =>
    by_cases hsettled : Settled μ c
    swap
    · exact (open_start hsettled _).follows _
    rcases hsettled.cases h with ⟨t, rest, hrest⟩ | ⟨hrest, hrest'⟩
    swap
    · rw [unary_nil hrest, unary_nil hrest']
      exact follows_call hexpression _ _ _ _ h
    rw [unary_cons hrest, unary_cons (h.rest_cons hrest)]
    have hop : unaryOp? (t.later μ.lines) = unaryOp? t := rfl
    rw [hop]
    cases unaryOp? t with
    | none => exact follows_call hexpression _ _ _ _ h
    | some op =>
      exact follows_map (follows_inside (ih _ (hN ▸ Cursor.size_skip_of_cons hrest) _ _
        (h.skip hrest) rfl)) fun _ ↦ rfl

theorem follows_unary : RulesFollow μ (unary expression) (unary expression') :=
  fun _ _ within within' h ↦ follows_unary_of_size hexpression _ within within' h rfl

theorem follows_factor : RulesFollow μ (factor expression) (factor expression') :=
  follows_chain .factor (follows_unary hexpression)

theorem follows_term : RulesFollow μ (term expression) (term expression') :=
  follows_chain .term (follows_factor hexpression)

theorem follows_comparison : RulesFollow μ (comparison expression) (comparison expression') :=
  follows_chain .comparison (follows_term hexpression)

theorem follows_equality : RulesFollow μ (equality expression) (equality expression') :=
  follows_chain .equality (follows_comparison hexpression)

theorem follows_conjunction : RulesFollow μ (conjunction expression) (conjunction expression') :=
  follows_chain .conjunction (follows_equality hexpression)

theorem follows_disjunction : RulesFollow μ (disjunction expression) (disjunction expression') :=
  follows_chain .disjunction (follows_conjunction hexpression)

omit hexpression in
theorem follows_assignTo (target value : Expr) (equals : Diagnostic) (less : c.size < n)
    (less' : c'.size < n') (h : Moved μ c c') :
    Follows μ Closed (assignTo target equals value c less)
      (assignTo (target.shift μ.toShift) (equals.later μ.lines) (value.shift μ.toShift) c'
        less') := by
  cases target with
  | var id name => exact follows_done (by rw [h.nextId]; rfl) h.draw
  | get object name => exact follows_done rfl h
  | _ => exact follows_done rfl (h.report _)

theorem follows_assignment : RulesFollow μ (assignment expression) (assignment expression') := by
  intro c c' within within' h
  refine follows_bind (follows_disjunction hexpression c c' within within' h)
    (fun target next shorter hopen ↦ ?_)
    fun target next shorter next' shorter' hsettled hnext ↦ ?_
  · rw [if_neg (not_sees hopen _)]
    exact hopen
  · rw [hnext.sees hsettled]
    split
    next hequal =>
      obtain ⟨t, -, hrest⟩ := Cursor.sees_iff.1 hequal
      rw [hnext.complaint hsettled]
      exact follows_andThen (hexpression _ _ _ _ (hnext.skip hrest))
        (fun value after _ _ hopen ↦ by
          cases target <;> exact hopen)
        fun value _ _ less _ _ less' _ hafter ↦
          (follows_assignTo target value _ less less' hafter).closed _
    next => exact follows_done rfl hnext

end

theorem follows_expression_of_size (N : Nat) (h : Moved μ c c') (hN : c.size = N) :
    Follows μ (Settled μ) (expression c) (expression c') := by
  induction N using Nat.strongRecOn generalizing c c' with
  | ind N ih =>
    rw [expression_eq, expression_eq]
    exact follows_assignment (fun _ _ less _ hmoved ↦ ih _ (hN ▸ less) hmoved rfl) c c' _ _ h

/-- A whole expression at another place. -/
theorem follows_expression (h : Moved μ c c') :
    Follows μ (Settled μ) (expression c) (expression c') :=
  follows_expression_of_size _ h rfl

end Lox.Grammar
