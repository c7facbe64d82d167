import Lox.Proofs.FirstFault.Verdicts
import Lox.Proofs.Grammar.ShiftedExpressions

/-!
The verdicts of the rules for expressions. Nothing is caught within an expression: a rule that
answers has read a word of its symbol and stands before what may come behind it, and one that fails
has found the first token with which no word goes on. What may come behind a word must not go on
with it; for each rule it is a set of tokens that would.
-/

set_option autoImplicit false

namespace Lox.Grammar

open Ebnf

variable {n : Nat} {c : Cursor} {K : Language Token}

/-- Tokens that go on with an expression. -/
def afterExpression : List Token.Kind := .equal :: Level.continuing .disjunction

/-- A rule reads the words of a symbol, if none of some tokens may come behind them. -/
def Judges (s : Part) (kinds : List Token.Kind) (rule : UpTo n Expr) : Prop :=
  ∀ c within K, Behind kinds K → Judged False (L (part s) * K) c K (rule c within)

theorem Judges.mono {s : Part} {kinds kinds' : List Token.Kind} {rule : UpTo n Expr}
    (h : Judges s kinds rule) (hsub : ∀ kind ∈ kinds, kind ∈ kinds') : Judges s kinds' rule :=
  fun c within K hK ↦ h c within K (hK.mono hsub)

/-! ### Levels -/

/-- An operator of the level and the operand on its right. -/
def further (k : Level) : Ebnf Part := token k.isOperator * part k.part

theorem live_further (k : Level) : Live (L (further k)) := by
  have hoperator : Live (L (token k.isOperator)) := by
    cases k
    · exact ⟨[⟨.or, "", 0⟩], mem_words_token.2 ⟨_, rfl, rfl⟩⟩
    · exact ⟨[⟨.and, "", 0⟩], mem_words_token.2 ⟨_, rfl, rfl⟩⟩
    · exact ⟨[⟨.equalEqual, "", 0⟩], mem_words_token.2 ⟨_, rfl, rfl⟩⟩
    · exact ⟨[⟨.less, "", 0⟩], mem_words_token.2 ⟨_, rfl, rfl⟩⟩
    · exact ⟨[⟨.minus, "", 0⟩], mem_words_token.2 ⟨_, rfl, rfl⟩⟩
    · exact ⟨[⟨.star, "", 0⟩], mem_words_token.2 ⟨_, rfl, rfl⟩⟩
  exact live_both hoperator (live_operand k)

theorem Level.joiner_eq_none {k : Level} {t : Token} (h : k.joiner t = none) :
    k.isOperator t.kind = false := by
  refine decide_eq_false fun hmem ↦ ?_
  obtain ⟨⟨kind, join⟩, hop, hkind⟩ := List.mem_map.1 hmem
  have hsome : k.joiner t = some (join t.line) :=
    (k.joiner_iff t _).2 ⟨join, by rw [← hkind]; exact hop, rfl⟩
  rw [h] at hsome
  cases hsome

theorem Level.mem_kinds_of_joiner {k : Level} {t : Token} {f : Expr → Expr → Expr}
    (h : k.joiner t = some f) : t.kind ∈ k.kinds := by
  obtain ⟨join, hmem, -⟩ := (k.joiner_iff t f).1 h
  exact List.mem_map_of_mem (f := Prod.fst) hmem

/-- Operators of a level do not go on with its operands. -/
theorem behind_further {k : Level} (hK : Behind k.continuing K) :
    Behind k.operandKinds (L (many (further k)) * K) := by
  have hoperand : Behind k.operandKinds K := hK.mono fun kind hmem ↦ List.mem_append_right _ hmem
  refine hoperand.many (behind_of_begins (live_further k) ((live_many _).mul hK.live) rfl ?_)
  intro kind hmem
  have hoperator : k.isOperator kind = false :=
    decide_eq_false fun hkinds ↦ k.kinds_not_operandKinds kind hkinds hmem
  change (k.isOperator kind || false) = false
  rw [hoperator]
  rfl

theorem judged_chainFrom {k : Level} {operand : UpTo n Expr}
    (hoperand : Judges k.part k.operandKinds operand) (hK : Behind k.continuing K) (N : Nat)
    (left : Expr) {size : Nat} (within : c.size ≤ n) (less : c.size < size) (hN : c.size = N) :
    Judged False (L (many (further k)) * K) c K
      (chainFrom k.joiner operand left c within less) := by
  induction N using Nat.strongRecOn generalizing c left with
  | ind N ih =>
    rw [chainFrom]
    cases hrest : c.rest with
    | nil =>
      refine judged_done (leads_last (misses_of_begins rfl ?_))
      rw [hrest]
      rfl
    | cons t rest =>
      cases hjoin : k.joiner t with
      | none =>
        simp only [List.head?_cons, Option.bind_some, hjoin]
        refine judged_done (leads_last (misses_of_begins rfl ?_))
        rw [headKind_cons hrest]
        change (k.isOperator t.kind || false) = false
        rw [Level.joiner_eq_none hjoin]
        rfl
      | some join =>
        have hkind := Level.mem_kinds_of_joiner hjoin
        simp only [List.head?_cons, Option.bind_some, hjoin]
        have hmisses := hK.misses (List.mem_append_left _ hkind) (headKind_cons hrest)
        refine (leads_more hmisses).judged ?_
        refine (leads_both _ _).judged ((leads_token hrest (decide_eq_true hkind)).judged ?_)
        refine judged_andThen (hoperand _ _ _ (behind_further hK))
          fun right after shorter less ↦ ?_
        exact ih _ (hN ▸ Cursor.lt_of_lt_skip shorter) _ _ _ rfl

theorem judges_chain (k : Level) {operand : UpTo n Expr}
    (hoperand : Judges k.part k.operandKinds operand) :
    Judges (.level k) k.continuing (chain k.joiner operand) := by
  intro c within K hK
  refine (leads_part _).judged ((leads_both _ _).judged ?_)
  refine judged_bind (hoperand c within _ (behind_further hK)) fun left after less ↦ ?_
  exact judged_chainFrom hoperand hK _ left _ less rfl

/-! ### Expressions within expressions -/

section

variable {expression : Below n Expr}
  (hexpression : ∀ c less K, Behind afterExpression K →
    Judged False (L (part .expression) * K) c K (expression c less))

include hexpression

theorem judged_expressions (hK : Behind (.comma :: afterExpression) K) (N : Nat)
    (less : c.size < n) (hN : c.size = N) :
    Judged False (L (part .arguments) * K) c K (expressions expression c less) := by
  have hothers : Behind afterExpression (L (many (only .comma * part .expression)) * K) := by
    refine (hK.mono fun kind hmem ↦ List.mem_cons_of_mem _ hmem).many (behind_of_begins
      (live_both (live_only _) live_expression) ((live_many _).mul hK.live) rfl ?_)
    decide
  induction N using Nat.strongRecOn generalizing c with
  | ind N ih =>
    rw [expressions]
    refine (leads_part _).judged ((leads_both _ _).judged ?_)
    refine judged_bind (hexpression c less _ hothers) fun first next shorter ↦ ?_
    split
    next hcomma =>
      have hmisses : Misses K next := hK.misses List.mem_cons_self ((sees_eq _ _).1 hcomma)
      refine (leads_more hmisses).judged ((leads_both _ _).judged ((leads_seen hcomma).judged ?_))
      have hnext := ih _ (hN ▸ Cursor.skip_lt_size shorter) (Cursor.skip_lt_of_lt shorter less) rfl
      rw [L_part, relaxed, L_mul, mul_assoc] at hnext
      exact judged_map (judged_inside hnext)
    next hcomma =>
      refine judged_done (leads_last ?_)
      rw [L_mul, mul_assoc]
      exact misses_unseen hcomma

theorem judged_arguments (hK : Live K) (less : c.size < n) :
    Judged False (L (opt (part .arguments)) * (L (only .rightParen) * K)) c K
      (arguments expression c less) := by
  unfold arguments
  split
  next hclosing =>
    have hmisses : Misses (L (part .arguments) * (L (only .rightParen) * K)) c := by
      refine misses_of_begins rfl ?_
      rw [(sees_eq _ _).1 hclosing]
      rfl
    exact (leads_absent hmisses).judged (judged_map (judged_expect hK (by decide)))
  next hclosing =>
    refine (leads_present (misses_unseen hclosing)).judged ?_
    refine judged_bind (judged_expressions hexpression ?_ _ less rfl) fun values next shorter ↦
      judged_map (judged_inside (judged_expect hK (by decide)))
    exact behind_of_begins (live_only _) hK rfl (by decide)

omit hexpression in
theorem judged_superAccess (hK : Live K) (line : Nat) :
    Judged False (L (only .dot) * (L (only .identifier) * K)) c K (superAccess line c) := by
  refine judged_bind (judged_expect ((live_only _).mul hK) (by decide)) fun _ next shorter ↦ ?_
  refine judged_andThen (judged_expectName hK (by decide)) fun method after _ shorter ↦ ?_
  exact judged_done (leads_still (passes_draw after))

theorem judged_grouping (hK : Live K) (less : c.size < n) :
    Judged False (L (part .expression) * (L (only .rightParen) * K)) c K
      (grouping expression c less) := by
  refine judged_bind (hexpression c less _ ?_) fun inner next shorter ↦
    judged_map (judged_inside (judged_expect hK (by decide)))
  exact behind_of_begins (live_only _) hK rfl (by decide)

omit hexpression in
/-- A token that is an expression by itself. -/
theorem leads_atom {t : Token} {rest : List Token} (hrest : c.rest = t :: rest)
    (hatom : isAtom t.kind = true) : Leads (L (relaxed .primary) * K) c K c.skip := by
  refine .trans (leads_one rfl ?_) (.trans (leads_one rfl ?_) (leads_token hrest hatom))
  all_goals
    rw [headKind_cons hrest]
    obtain ⟨kind, lexeme, line⟩ := t
    cases kind <;> first | rfl | cases hatom

theorem judged_primary (hK : Live K) (within : c.size ≤ n) :
    Judged False (L (part .primary) * K) c K (primary expression c within) := by
  have hlive : Live (L (part .primary) * K) := live_primary.mul hK
  cases hrest : c.rest with
  | nil =>
    have hmisses : Misses (L (part .primary) * K) c := by
      refine misses_of_begins rfl ?_
      rw [hrest]
      rfl
    rw [primary_nil hrest]
    exact judged_fail hlive hmisses (by decide)
  | cons t rest =>
    have hhead := headKind_cons hrest
    have hmisses (hbegins : beginsPrimary t.kind = false) : Misses (L (part .primary) * K) c := by
      refine misses_of_begins rfl ?_
      rw [hhead]
      exact hbegins
    rw [primary_cons hrest]
    obtain ⟨kind, lexeme, line⟩ := t
    unfold primaryOf
    cases kind with
    | false | true | nil | number | string =>
      exact (leads_part _).judged (judged_done (leads_atom hrest rfl))
    | identifier | this =>
      refine (leads_part _).judged ((leads_atom hrest rfl).judged ?_)
      exact judged_done (leads_still (passes_draw _))
    | super =>
      refine (leads_part _).judged ((leads_other rfl ?_).judged ?_)
      · rw [hhead]
        rfl
      refine (leads_both _ _).judged ((leads_both _ _).judged ?_)
      exact (leads_only hrest rfl).judged (judged_inside (judged_superAccess hK line))
    | leftParen =>
      refine (leads_part _).judged ((leads_one rfl ?_).judged ((leads_other rfl ?_).judged ?_))
      · rw [hhead]
        rfl
      · rw [hhead]
        rfl
      refine (leads_both _ _).judged ((leads_both _ _).judged ?_)
      exact (leads_only hrest rfl).judged (judged_inside (judged_grouping hexpression hK _))
    | _ => exact judged_fail hlive (hmisses rfl) (by decide)

/-- A call or a property behind what it is of. -/
def suffix : Ebnf Part :=
  only .leftParen * opt (part .arguments) * only .rightParen + only .dot * only .identifier

theorem judged_suffixesFrom (hK : Behind suffixKinds K) (N : Nat) (target : Expr) {size : Nat}
    (within : c.size ≤ n) (less : c.size < size) (hN : c.size = N) :
    Judged False (L (many suffix) * K) c K (suffixesFrom expression target c within less) := by
  induction N using Nat.strongRecOn generalizing c target with
  | ind N ih =>
    have hlive : Live (L (many suffix) * K) := (live_many _).mul hK.live
    rw [suffixesFrom]
    by_cases hcall : c.sees .leftParen
    · have hhead := (sees_eq c .leftParen).1 hcall
      rw [dif_pos hcall]
      refine (leads_more (hK.misses (by decide) hhead)).judged ((leads_one rfl ?_).judged ?_)
      · rw [hhead]
        rfl
      refine (leads_both _ _).judged ((leads_both _ _).judged ((leads_seen hcall).judged ?_))
      refine judged_andThen (judged_arguments hexpression hlive _)
        fun values after shorter less ↦ ?_
      exact ih _ (hN ▸ Cursor.lt_of_lt_skip shorter) _ _ _ rfl
    rw [dif_neg hcall]
    split
    next hdot =>
      have hhead := (sees_eq c .dot).1 hdot
      refine (leads_more (hK.misses (by decide) hhead)).judged ((leads_other rfl ?_).judged ?_)
      · rw [hhead]
        rfl
      refine (leads_both _ _).judged ((leads_seen hdot).judged ?_)
      refine judged_andThen (judged_expectName hlive (by decide)) fun name after shorter less ↦ ?_
      exact ih _ (hN ▸ Cursor.lt_of_lt_skip shorter) _ _ _ rfl
    next hdot =>
      refine judged_done (leads_last ?_)
      rw [suffix, L_add, add_mul, L_mul, L_mul, L_mul, mul_assoc, mul_assoc, mul_assoc]
      exact (misses_unseen hcall).add (misses_unseen hdot)

theorem judges_call : Judges .call suffixKinds (call expression) := by
  intro c within K hK
  refine (leads_part _).judged ((leads_both _ _).judged ?_)
  have hlive : Live (L (many suffix) * K) := (live_many _).mul hK.live
  refine judged_bind (judged_primary hexpression hlive within) fun target next shorter ↦ ?_
  exact judged_suffixesFrom hexpression hK _ target _ shorter rfl

theorem judged_unary (hK : Behind suffixKinds K) (N : Nat) (within : c.size ≤ n)
    (hN : c.size = N) :
    Judged False (L (part .unary) * K) c K (unary expression c within) := by
  induction N using Nat.strongRecOn generalizing c with
  | ind N ih =>
    cases hrest : c.rest with
    | nil =>
      rw [unary_nil hrest]
      refine (leads_part _).judged
        ((leads_other rfl ?_).judged (judges_call hexpression c within K hK))
      rw [hrest]
      rfl
    | cons t rest =>
      have hhead := headKind_cons hrest
      rw [unary_cons hrest]
      cases hop : unaryOp? t with
      | none =>
        refine (leads_part _).judged ((leads_other rfl ?_).judged
          (judges_call hexpression c within K hK))
        rw [hhead]
        obtain ⟨kind, lexeme, line⟩ := t
        cases kind <;> first | rfl | cases hop
      | some op =>
        have hsign : isSign t.kind = true :=
          decide_eq_true (List.mem_map_of_mem (f := Prod.fst) ((unaryOp?_iff t op).1 hop))
        refine (leads_part _).judged ((leads_one rfl ?_).judged ?_)
        · rw [hhead]
          obtain ⟨kind, lexeme, line⟩ := t
          cases kind <;> first | rfl | cases hop
        refine (leads_both _ _).judged ((leads_token hrest hsign).judged ?_)
        exact judged_map (judged_inside (ih _ (hN ▸ Cursor.size_skip_of_cons hrest) _ rfl))

theorem judges_unary : Judges .unary suffixKinds (unary expression) :=
  fun _ within _ hK ↦ judged_unary hexpression hK _ within rfl

theorem judges_factor : Judges (.level .factor) (Level.continuing .factor) (factor expression) :=
  judges_chain .factor ((judges_unary hexpression).mono (by decide))

theorem judges_term : Judges (.level .term) (Level.continuing .term) (term expression) :=
  judges_chain .term ((judges_factor hexpression).mono (by decide))

theorem judges_comparison :
    Judges (.level .comparison) (Level.continuing .comparison) (comparison expression) :=
  judges_chain .comparison ((judges_term hexpression).mono (by decide))

theorem judges_equality :
    Judges (.level .equality) (Level.continuing .equality) (equality expression) :=
  judges_chain .equality ((judges_comparison hexpression).mono (by decide))

theorem judges_conjunction :
    Judges (.level .conjunction) (Level.continuing .conjunction) (conjunction expression) :=
  judges_chain .conjunction ((judges_equality hexpression).mono (by decide))

theorem judges_disjunction :
    Judges (.level .disjunction) (Level.continuing .disjunction) (disjunction expression) :=
  judges_chain .disjunction ((judges_conjunction hexpression).mono (by decide))

omit hexpression in
/-- What becomes of a target does not depend on what stands before the cursor, and an invalid one
is not a fault. -/
theorem judged_assignTo (target value : Expr) {equals : Diagnostic}
    (hequals : equals.isFault = false) (less : c.size < n) :
    Judged False K c K (assignTo target equals value c less) := by
  cases target with
  | var id name => exact judged_done (leads_still (passes_draw c))
  | get object name => exact judged_done leads_refl
  | _ => exact judged_done (leads_still (passes_report hequals))

theorem judges_assignment : Judges .assignment afterExpression (assignment expression) := by
  intro c within K hK
  have htail : Behind (Level.continuing .disjunction)
      (L (opt (only .equal * part .assignment)) * K) := by
    refine (hK.mono fun kind hmem ↦ List.mem_cons_of_mem _ hmem).opt (behind_of_begins
      (live_both (live_only _) live_assignment) hK.live rfl ?_)
    decide
  refine (leads_part _).judged ((leads_both _ _).judged ?_)
  refine judged_bind (judges_disjunction hexpression c within _ htail) fun target next shorter ↦ ?_
  split
  next hequal =>
    have hmisses : Misses K next := hK.misses List.mem_cons_self ((sees_eq _ _).1 hequal)
    refine (leads_present hmisses).judged ((leads_both _ _).judged ((leads_seen hequal).judged ?_))
    have hvalue := hexpression next.skip (Cursor.skip_lt_of_lt_of_le shorter within) K hK
    rw [L_part, relaxed] at hvalue
    refine judged_andThen hvalue
      fun value after _ shorter ↦ judged_assignTo target value ?_ shorter
    exact Bool.eq_false_iff.2 fun hfault ↦ (complaint_isFault _ _).1 hfault rfl
  next hequal =>
    refine judged_done (leads_absent ?_)
    rw [L_mul, mul_assoc]
    exact misses_unseen hequal

end

theorem judged_expression_of_size (N : Nat) (hK : Behind afterExpression K) (hN : c.size = N) :
    Judged False (L (part .expression) * K) c K (expression c) := by
  induction N using Nat.strongRecOn generalizing c K with
  | ind N ih =>
    rw [expression_eq]
    refine (leads_part _).judged (judges_assignment ?_ c _ K hK)
    intro c' less K' hK'
    exact ih _ (hN ▸ less) hK' rfl

/-- A whole expression: reading fails at the first token with which no expression goes on. -/
theorem judged_expression (hK : Behind afterExpression K) :
    Judged False (L (part .expression) * K) c K (expression c) :=
  judged_expression_of_size _ hK rfl

end Lox.Grammar
