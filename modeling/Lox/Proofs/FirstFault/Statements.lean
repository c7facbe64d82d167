import Lox.Proofs.FirstFault.Expressions
import Lox.Proofs.Grammar.ShiftedStatements

/-!
The verdicts of the rules for statements and declarations. Errors are caught in blocks, so that a
statement that contains one may be spoilt; a declaration without a statement inside cannot be. An
`if` takes an `else` that comes behind it, wherever the `else` might belong to as well: this is no
loss if what may come behind an `else` there is a statement anyway.
-/

set_option autoImplicit false

namespace Lox.Grammar

open Ebnf

variable {n : Nat} {c : Cursor} {K : Language Token}

/-! ### Parts of statements -/

/-- An expression and the token after it, whatever becomes of the expression. -/
theorem judged_closed {α : Type} {kind : Token.Kind} {cause : GrammarError} (hK : Live K)
    (hkind : kind ∉ afterExpression) (hcause : cause ≠ .assignmentTarget) (f : Expr → α) :
    Judged False (L (part .expression) * (L (only kind) * K)) c K
      ((expression c).bind fun value next shorter ↦
        ((next.expect kind cause).inside shorter).map fun _ ↦ f value) := by
  have hbehind : Behind afterExpression (L (only kind) * K) := by
    refine behind_of_begins (live_only kind) hK rfl ?_
    intro kind' hmem
    exact decide_eq_false fun heq ↦ hkind (heq ▸ hmem)
  exact judged_bind (judged_expression hbehind) fun value next shorter ↦
    judged_map (judged_inside (judged_expect hK hcause))

theorem judged_expressionUntil {kind : Token.Kind} {cause : GrammarError} (hK : Live K)
    (hkind : kind ∉ afterExpression) (hcause : cause ≠ .assignmentTarget) :
    Judged False (L (part .expression) * (L (only kind) * K)) c K (expressionUntil kind cause c) :=
  judged_closed hK hkind hcause fun value ↦ value

theorem judged_optionalUntil {kind : Token.Kind} {cause : GrammarError} (hK : Live K)
    (hbegins : beginsExpression kind = false) (hkind : kind ∉ afterExpression)
    (hcause : cause ≠ .assignmentTarget) :
    Judged False (L (opt (part .expression)) * (L (only kind) * K)) c K
      (optionalUntil kind cause c) := by
  unfold optionalUntil
  split
  next hclosing =>
    have hmisses : Misses (L (part .expression) * (L (only kind) * K)) c := by
      refine misses_of_begins rfl ?_
      rw [(sees_eq _ _).1 hclosing]
      exact hbegins
    exact (leads_absent hmisses).judged (judged_done (leads_seen hclosing))
  next hclosing =>
    refine (leads_present (misses_unseen hclosing)).judged ?_
    exact judged_closed hK hkind hcause some

theorem judged_expressionStatement (hK : Live K) :
    Judged False (L (part .exprStmt) * K) c K (expressionStatement c) := by
  refine (leads_part _).judged ((leads_both _ _).judged ?_)
  exact judged_map (judged_expressionUntil hK (by decide) (by decide))

theorem judged_condition {opening : GrammarError} (hopening : opening ≠ .assignmentTarget)
    (hK : Live K) :
    Judged False (L (only .leftParen) * (L (part .expression) * (L (only .rightParen) * K))) c K
      (condition opening c) := by
  have hlive : Live (L (part .expression) * (L (only .rightParen) * K)) :=
    live_expression.mul ((live_only _).mul hK)
  refine judged_bind (judged_expect hlive hopening) fun _ next shorter ↦ judged_inside ?_
  exact judged_expressionUntil hK (by decide) (by decide)

/-- A variable after its keyword. -/
theorem judged_varDeclaration (hK : Live K) :
    Judged False (L (only .identifier) *
      (L (opt (only .equal * part .expression)) * (L (only .semicolon) * K))) c K
      (varDeclaration c) := by
  have hend : Live (L (only .semicolon) * K) := (live_only _).mul hK
  refine judged_bind (judged_expectName ((live_opt _).mul hend) (by decide))
    fun name next shorter ↦ ?_
  split
  next hequal =>
    have hmisses : Misses (L (only .semicolon) * K) next :=
      misses_only (by rw [(sees_eq _ _).1 hequal]; decide)
    refine (leads_present hmisses).judged ((leads_both _ _).judged ((leads_seen hequal).judged ?_))
    exact judged_map (judged_inside (judged_expressionUntil hK (by decide) (by decide)))
  next hequal =>
    have hmisses :
        Misses (L (only .equal * part .expression) * (L (only .semicolon) * K)) next := by
      rw [L_mul, mul_assoc]
      exact misses_unseen hequal
    refine (leads_absent hmisses).judged ?_
    exact judged_map (judged_inside (judged_expect hK (by decide)))

/-! ### Declarations without statements inside -/

/-- Whether the statement that a token begins has statements inside. -/
def holdsStatement : Token.Kind → Bool
  | .for_ | .if_ | .while_ | .leftBrace => true
  | _ => false

/-- Whether the declaration that a token begins has none. -/
def isSimple : Token.Kind → Bool
  | .class_ | .fun_ => false
  | kind => !holdsStatement kind

/-- The declaration that a token begins if it is such a one. -/
def simpleOf : Token.Kind → Part
  | .var => .varDecl
  | kind => statementOf kind

section

variable {t : Token} {rest : List Token} (hrest : c.rest = t :: rest) (hK : Live K)
  (rules : Rules n) (within : c.size ≤ n)

include hrest hK

theorem judged_simpleStatement (hsimple : holdsStatement t.kind = false) :
    Judged False (L (part (statementOf t.kind)) * K) c K (statementWith rules c within) := by
  rw [statementWith_cons hrest]
  obtain ⟨kind, lexeme, line⟩ := t
  cases kind with
  | print =>
    simp only [statementOf, L_part .printStmt, relaxed, L_mul, mul_assoc]
    refine (leads_only hrest rfl).judged (judged_inside (judged_map ?_))
    exact judged_expressionUntil hK (by decide) (by decide)
  | return_ =>
    simp only [statementOf, L_part .returnStmt, relaxed, L_mul, mul_assoc]
    refine (leads_only hrest rfl).judged (judged_inside (judged_map ?_))
    exact judged_optionalUntil hK rfl (by decide) (by decide)
  | for_ | if_ | while_ | leftBrace => cases hsimple
  | _ => exact judged_expressionStatement hK

theorem judged_simple (hsimple : isSimple t.kind = true) :
    Judged False (L (part (simpleOf t.kind)) * K) c K (declarationWith rules c within) := by
  have hstatement := judged_simpleStatement hrest hK rules within
  rw [declarationWith_cons hrest]
  obtain ⟨kind, lexeme, line⟩ := t
  cases kind with
  | var =>
    simp only [simpleOf, L_part .varDecl, relaxed, L_mul, mul_assoc]
    refine (leads_only hrest rfl).judged (judged_inside ?_)
    exact judged_varDeclaration hK
  | class_ | fun_ | for_ | if_ | while_ | leftBrace => cases hsimple
  | _ => exact hstatement rfl

end

/-! ### Routines and classes -/

theorem judged_names (hK : Behind [.comma] K) (N : Nat) (hN : c.size = N) :
    Judged False (L (part .parameters) * K) c K (names c) := by
  induction N using Nat.strongRecOn generalizing c with
  | ind N ih =>
    rw [names]
    refine (leads_part _).judged ((leads_both _ _).judged ?_)
    refine judged_bind (judged_expectName ((live_many _).mul hK.live) (by decide))
      fun first next shorter ↦ ?_
    split
    next hcomma =>
      have hmisses : Misses K next := hK.misses List.mem_cons_self ((sees_eq _ _).1 hcomma)
      refine (leads_more hmisses).judged ((leads_both _ _).judged ((leads_seen hcomma).judged ?_))
      have hnext := ih _ (hN ▸ Cursor.skip_lt_size shorter) rfl
      rw [L_part, relaxed, L_mul, mul_assoc] at hnext
      exact judged_map (judged_inside hnext)
    next hcomma =>
      refine judged_done (leads_last ?_)
      rw [L_mul, mul_assoc]
      exact misses_unseen hcomma

theorem judged_parameters (hK : Live K) :
    Judged False (L (opt (part .parameters)) * (L (only .rightParen) * K)) c K (parameters c) := by
  unfold parameters
  split
  next hclosing =>
    have hmisses : Misses (L (part .parameters) * (L (only .rightParen) * K)) c := by
      refine misses_of_begins rfl ?_
      rw [(sees_eq _ _).1 hclosing]
      rfl
    exact (leads_absent hmisses).judged (judged_done (leads_seen hclosing))
  next hclosing =>
    refine (leads_present (misses_unseen hclosing)).judged ?_
    refine judged_bind (judged_names ?_ _ rfl) fun values next shorter ↦
      judged_map (judged_inside (judged_expect hK (by decide)))
    exact behind_of_begins (live_only _) hK rfl (by decide)

/-- Languages that may come behind a statement: where one of their words begins with an `else`, a
statement may come behind it. -/
structure ElseClosed (K : Language Token) : Prop where
  live : Live K
  statement : ∀ t y, t.kind = .else_ → t :: y ∈ K → y ∈ L (part .statement) * K

theorem Behind.elseClosed (hK : Behind [.else_] K) : ElseClosed K where
  live := hK.live
  statement t y hkind hmem := absurd (List.mem_singleton.2 hkind) (hK.stops _ hmem t y rfl)

/-- The rules for shorter texts. A block is read behind its opening brace. -/
structure JudgedRules (rules : Rules n) : Prop where
  statement : ∀ c less K, ElseClosed K →
    Judged True (L (part .statement) * K) c K (rules.statement c less)
  block : ∀ c less K, Live K →
    Judged True (L (many (part .declaration)) * (L (only .rightBrace) * K)) c K
      (rules.block c less)

section

variable {rules : Rules n} (hrules : JudgedRules rules)

include hrules

theorem judged_routine (kind : RoutineKind) (hK : Live K) (within : c.size ≤ n) :
    Judged True (L (part .function) * K) c K (routine rules kind c within) := by
  have hblock : Live (L (part .block) * K) := live_block.mul hK
  have hparameters : Live (L (opt (part .parameters)) *
      (L (only .rightParen) * (L (part .block) * K))) :=
    (live_opt _).mul ((live_only _).mul hblock)
  simp only [L_part .function, relaxed, L_mul, mul_assoc]
  refine judged_bind (judged_expectName ((live_only _).mul hparameters) (by rintro ⟨⟩))
    fun name _ less ↦ ?_
  refine judged_andThen (judged_expect hparameters (by rintro ⟨⟩)) fun _ _ _ less ↦ ?_
  refine judged_andThen (judged_parameters hblock).of_strict fun params _ _ less ↦ ?_
  have hbody : Live (L (many (part .declaration)) * (L (only .rightBrace) * K)) :=
    (live_many _).mul ((live_only _).mul hK)
  simp only [L_part .block, relaxed, L_mul, mul_assoc]
  refine judged_andThen (judged_expect hbody (by rintro ⟨⟩)) fun _ _ _ less ↦ ?_
  exact judged_map (judged_inside (hrules.block _ _ K hK))

theorem judged_methods (hK : Live K) (N : Nat) (within : c.size ≤ n) (hN : c.size = N) :
    Judged True (L (many (part .function)) * (L (only .rightBrace) * K)) c K
      (methods rules c within) := by
  induction N using Nat.strongRecOn generalizing c with
  | ind N ih =>
    rw [methods]
    split
    next hstop =>
      refine (leads_last ?_).judged (judged_map (judged_expect hK (by decide)))
      refine misses_of_begins rfl ?_
      rcases hstop with hbrace | hnone
      · rw [(sees_eq _ _).1 hbrace]
        rfl
      · rw [List.length_eq_zero_iff.1 hnone]
        rfl
    next hstop =>
      have hmisses : Misses (L (only .rightBrace) * K) c :=
        misses_unseen fun hbrace ↦ hstop (.inl hbrace)
      refine (leads_more hmisses).judged ?_
      have hlive : Live (L (many (part .function)) * (L (only .rightBrace) * K)) :=
        (live_many _).mul ((live_only _).mul hK)
      refine judged_bind (judged_routine hrules _ hlive within) fun first next shorter ↦ ?_
      exact judged_map (judged_inside (ih _ (hN ▸ shorter) _ rfl))

theorem judged_classBody (name : Name) (superclass : Option Superclass) (hK : Live K)
    (less : c.size < n) :
    Judged True (L (only .leftBrace) * (L (many (part .function)) * (L (only .rightBrace) * K))) c K
      (classBody rules name superclass c less) := by
  have hlive : Live (L (many (part .function)) * (L (only .rightBrace) * K)) :=
    (live_many _).mul ((live_only _).mul hK)
  refine judged_bind (judged_expect hlive (by decide)) fun _ next shorter ↦ ?_
  exact judged_map (judged_inside (judged_methods hrules hK _ _ rfl))

/-- A class after its keyword. -/
theorem judged_classDeclaration (hK : Live K) (within : c.size ≤ n) :
    Judged True (L (only .identifier) * (L (opt (only .less * only .identifier)) *
      (L (only .leftBrace) * (L (many (part .function)) * (L (only .rightBrace) * K))))) c K
      (classDeclaration rules c within) := by
  have hbody : Live (L (only .leftBrace) *
      (L (many (part .function)) * (L (only .rightBrace) * K))) :=
    (live_only _).mul ((live_many _).mul ((live_only _).mul hK))
  refine judged_bind (judged_expectName ((live_opt _).mul hbody) (by decide))
    fun name next shorter ↦ ?_
  split
  next hless =>
    have hmisses : Misses (L (only .leftBrace) *
        (L (many (part .function)) * (L (only .rightBrace) * K))) next :=
      misses_only (by rw [(sees_eq _ _).1 hless]; decide)
    refine (leads_present hmisses).judged ((leads_both _ _).judged ((leads_seen hless).judged ?_))
    refine judged_andThen (judged_expectName hbody (by decide)) fun parent last _ shorter ↦ ?_
    refine (leads_still (passes_draw last)).judged (judged_inside ?_)
    exact judged_classBody hrules name _ hK _
  next hless =>
    refine (leads_absent ?_).judged (judged_inside (judged_classBody hrules name _ hK _))
    rw [L_mul, mul_assoc]
    exact misses_unseen hless

/-! ### Statements with statements inside -/

omit hrules in
/-- An `else` that comes behind the inner statement belongs to it, or a statement may come behind
the `else` all the same. -/
theorem ElseClosed.leads_else (hK : ElseClosed K) (helse : c.sees .else_ = true) :
    Leads (L (opt (only .else_ * part .statement)) * K) c
      (L (only .else_ * part .statement) * K) c := by
  rw [L_opt, add_mul, one_mul]
  refine ⟨[], Passes.nothing c, fun y hy ↦ .inl hy, ?_⟩
  rintro y hahead (hy | hy)
  · exact hy
  · obtain ⟨t, hkind, hrest⟩ := Cursor.sees_iff.1 helse
    rw [Ahead, hrest] at hahead
    obtain ⟨u, rfl⟩ := List.head?_eq_some_iff.1 hahead
    have hstatement := hK.statement t u hkind hy
    have hword : [t] ∈ L (only .else_) := mem_words_token.2 ⟨t, decide_eq_true hkind, rfl⟩
    rw [L_mul, mul_assoc]
    exact Language.append_mem_mul hword hstatement

omit hrules in
theorem ElseClosed.withElse (hK : ElseClosed K) :
    ElseClosed (L (opt (only .else_ * part .statement)) * K) := by
  have hlater : ∀ y ∈ K, y ∈ L (opt (only .else_ * part .statement)) * K := by
    intro y hy
    rw [L_opt, add_mul, one_mul]
    exact .inr hy
  refine ⟨(live_opt _).mul hK.live, ?_⟩
  intro t y hkind hmem
  have hstatement : y ∈ L (part .statement) * K := by
    rw [L_opt, add_mul, one_mul, L_mul, mul_assoc] at hmem
    rcases hmem with hmem | hmem
    · obtain ⟨u, hu, v, hv, heq⟩ := Language.mem_mul.1 hmem
      obtain ⟨t', -, rfl⟩ := mem_words_token.1 hu
      cases heq
      exact hv
    · exact hK.statement t y hkind hmem
  obtain ⟨u, hu, v, hv, rfl⟩ := Language.mem_mul.1 hstatement
  exact Language.append_mem_mul hu (hlater v hv)

/-- An `if` after its keyword. -/
theorem judged_ifStatement (hK : ElseClosed K) (within : c.size ≤ n) :
    Judged True (L (only .leftParen) * (L (part .expression) * (L (only .rightParen) *
      (L (part .statement) * (L (opt (only .else_ * part .statement)) * K))))) c K
      (ifStatement rules c within) := by
  have hlive := live_statement.mul hK.withElse.live
  refine judged_bind (judged_condition (by decide) hlive).of_strict fun test next less ↦ ?_
  refine judged_andThen (hrules.statement _ _ _ hK.withElse) fun consequent last _ less ↦ ?_
  split
  next helse =>
    refine (hK.leads_else helse).judged ((leads_both _ _).judged ((leads_seen helse).judged ?_))
    exact judged_map (judged_inside (hrules.statement _ _ K hK))
  next helse =>
    refine judged_done (leads_absent ?_)
    rw [L_mul, mul_assoc]
    exact misses_unseen helse

theorem judged_whileStatement (hK : ElseClosed K) (within : c.size ≤ n) :
    Judged True (L (only .leftParen) * (L (part .expression) * (L (only .rightParen) *
      (L (part .statement) * K)))) c K (whileStatement rules c within) := by
  have hlive := live_statement.mul hK.live
  refine judged_bind (judged_condition (by decide) hlive).of_strict fun test next less ↦ ?_
  exact judged_map (judged_inside (hrules.statement _ _ K hK))

omit hrules in
theorem judged_forInitializer (hK : Live K) :
    Judged False (L (part .varDecl + part .exprStmt + only .semicolon) * K) c K
      (forInitializer c) := by
  unfold forInitializer
  split
  next hsemicolon =>
    refine (leads_other rfl ?_).judged (judged_done (leads_seen hsemicolon))
    rw [(sees_eq _ _).1 hsemicolon]
    rfl
  next hsemicolon =>
    refine (leads_one rfl (begins_only fun hhead ↦ hsemicolon ((sees_eq _ _).2 hhead))).judged ?_
    split
    next hvar =>
      refine (leads_one rfl ?_).judged ?_
      · rw [(sees_eq _ _).1 hvar]
        rfl
      simp only [L_part .varDecl, relaxed, L_mul, mul_assoc]
      refine (leads_seen hvar).judged ?_
      exact judged_map (judged_inside (judged_varDeclaration hK))
    next hvar =>
      have hbegins : (part .varDecl : Ebnf Part).begins Part.first (headKind c.rest) = false := by
        rw [← begins_only fun hhead ↦ hvar ((sees_eq _ _).2 hhead)]
        cases headKind c.rest <;> rfl
      exact (leads_other rfl hbegins).judged (judged_map (judged_expressionStatement hK))

/-- A `for` after its keyword. -/
theorem judged_forStatement (hK : ElseClosed K) (within : c.size ≤ n) :
    Judged True (L (only .leftParen) * (L (part .varDecl + part .exprStmt + only .semicolon) *
      (L (opt (part .expression)) * (L (only .semicolon) * (L (opt (part .expression)) *
        (L (only .rightParen) * (L (part .statement) * K))))))) c K
      (forStatement rules c within) := by
  have hbody := live_statement.mul hK.live
  have hincrement : Live (L (opt (part .expression)) *
      (L (only .rightParen) * (L (part .statement) * K))) :=
    (live_opt _).mul ((live_only _).mul hbody)
  have htest : Live (L (opt (part .expression)) * (L (only .semicolon) *
      (L (opt (part .expression)) * (L (only .rightParen) * (L (part .statement) * K))))) :=
    (live_opt _).mul ((live_only _).mul hincrement)
  have hinitial : Live (L (part .varDecl + part .exprStmt + only .semicolon)) := by
    rw [L_add]
    exact (live_only _).right _
  refine judged_bind (judged_expect (hinitial.mul htest) (by decide)) fun _ _ less ↦ ?_
  refine judged_andThen (judged_forInitializer htest).of_strict fun initial _ _ less ↦ ?_
  refine judged_andThen (judged_optionalUntil hincrement rfl (by decide) (by decide)).of_strict
    fun test _ _ less ↦ ?_
  refine judged_andThen (judged_optionalUntil hbody rfl (by decide) (by decide)).of_strict
    fun increment _ _ less ↦ ?_
  exact judged_map (judged_inside (hrules.statement _ _ K hK))

end

/-! ### Statements and declarations -/

def statementParts : List Part :=
  [.exprStmt, .forStmt, .ifStmt, .printStmt, .returnStmt, .whileStmt, .block]

def declarationParts : List Part := [.classDecl, .funDecl, .varDecl, .statement]

theorem mem_statement (x : List Token) :
    x ∈ L (part .statement) ↔ ∃ s ∈ statementParts, x ∈ L (part s) := by
  rw [L_part, relaxed]
  simp [statementParts, L_add, Language.mem_add, or_assoc]

theorem mem_declaration (x : List Token) :
    x ∈ L (part .declaration) ↔ ∃ s ∈ declarationParts, x ∈ L (part s) := by
  rw [L_part, relaxed]
  simp [declarationParts, L_add, Language.mem_add, or_assoc]

/-- One of several parts is meant if no other one can begin with what comes next. -/
theorem leads_among {s s' : Part} {parts : List Part}
    (hparts : ∀ x, x ∈ L (part s) ↔ ∃ p ∈ parts, x ∈ L (part p)) (hmem : s' ∈ parts)
    (hnone : s.first none = false)
    (honly : ∀ p ∈ parts, ∀ kind, headKind c.rest = some kind → p.first (some kind) = true →
      p = s') :
    Leads (L (part s) * K) c (L (part s') * K) c := by
  refine ⟨[], Passes.nothing c, ?_, ?_⟩
  · intro y hy
    obtain ⟨u, hu, v, hv, rfl⟩ := Language.mem_mul.1 hy
    show u ++ v ∈ L (part s) * K
    exact Language.append_mem_mul ((hparts u).2 ⟨s', hmem, hu⟩) hv
  · intro y hahead hy
    obtain ⟨u, hu, v, hv, rfl⟩ := Language.mem_mul.1 hy
    refine Language.append_mem_mul ?_ hv
    cases u with
    | nil =>
      have hempty : s.first none = true := begins_of_mem first_rule hu
      rw [hnone] at hempty
      cases hempty
    | cons t u =>
      obtain ⟨p, hp, hmem⟩ := (hparts _).1 hu
      have hfirst : p.first (some t.kind) = true := begins_of_mem first_rule hmem
      have hhead : headKind c.rest = some t.kind := congrArg (Option.map Token.kind) hahead.symm
      rw [← honly p hp t.kind hhead hfirst]
      exact hmem

theorem statementOf_of_first {p : Part} (hp : p ∈ statementParts) {kind : Token.Kind}
    (h : p.first (some kind) = true) : p = statementOf kind := by
  simp only [statementParts, List.mem_cons, List.not_mem_nil, or_false] at hp
  rcases hp with rfl | rfl | rfl | rfl | rfl | rfl | rfl <;> cases kind <;>
    first | rfl | cases h

theorem declarationOf_of_first {p : Part} (hp : p ∈ declarationParts) {kind : Token.Kind}
    (h : p.first (some kind) = true) : p = declarationOf kind := by
  simp only [declarationParts, List.mem_cons, List.not_mem_nil, or_false] at hp
  rcases hp with rfl | rfl | rfl | rfl <;> cases kind <;> first | rfl | cases h

theorem leads_statement {t : Token} {rest : List Token} (hrest : c.rest = t :: rest) :
    Leads (L (part .statement) * K) c (L (part (statementOf t.kind)) * K) c := by
  refine leads_among mem_statement ?_ rfl fun p hp kind hhead hfirst ↦ ?_
  · cases t.kind <;> simp [statementOf, statementParts]
  · rw [headKind_cons hrest] at hhead
    cases hhead
    exact statementOf_of_first hp hfirst

theorem leads_declaration {t : Token} {rest : List Token} (hrest : c.rest = t :: rest) :
    Leads (L (part .declaration) * K) c (L (part (declarationOf t.kind)) * K) c := by
  refine leads_among mem_declaration ?_ rfl fun p hp kind hhead hfirst ↦ ?_
  · cases t.kind <;> simp [declarationOf, declarationParts]
  · rw [headKind_cons hrest] at hhead
    cases hhead
    exact declarationOf_of_first hp hfirst

section

variable {rules : Rules n}

theorem judged_statementWith (hrules : JudgedRules rules) (hK : ElseClosed K)
    (within : c.size ≤ n) :
    Judged True (L (part .statement) * K) c K (statementWith rules c within) := by
  cases hrest : c.rest with
  | nil =>
    have hnone : headKind c.rest = none := by
      rw [hrest]
      rfl
    have hleads : Leads (L (part .statement) * K) c (L (part .exprStmt) * K) c := by
      refine leads_among mem_statement (by simp [statementParts]) rfl fun p hp kind hhead ↦ ?_
      rw [hnone] at hhead
      cases hhead
    rw [statementWith_nil hrest]
    exact hleads.judged (judged_expressionStatement hK.live).of_strict
  | cons t rest =>
    refine (leads_statement hrest).judged ?_
    rw [statementWith_cons hrest]
    obtain ⟨kind, lexeme, line⟩ := t
    cases kind with
    | for_ =>
      simp only [statementOf, L_part .forStmt, relaxed, L_mul, mul_assoc]
      exact (leads_only hrest rfl).judged (judged_inside (judged_forStatement hrules hK _))
    | if_ =>
      simp only [statementOf, L_part .ifStmt, relaxed, L_mul, mul_assoc]
      exact (leads_only hrest rfl).judged (judged_inside (judged_ifStatement hrules hK _))
    | while_ =>
      simp only [statementOf, L_part .whileStmt, relaxed, L_mul, mul_assoc]
      exact (leads_only hrest rfl).judged (judged_inside (judged_whileStatement hrules hK _))
    | leftBrace =>
      simp only [statementOf, L_part .block, relaxed, L_mul, mul_assoc]
      refine (leads_only hrest rfl).judged (judged_inside (judged_map ?_))
      exact hrules.block _ _ K hK.live
    | _ =>
      have hsimple := judged_simpleStatement hrest hK.live rules within rfl
      rw [statementWith_cons hrest] at hsimple
      exact hsimple.of_strict

theorem judged_declarationWith (hrules : JudgedRules rules) (hK : ElseClosed K)
    (within : c.size ≤ n) :
    Judged True (L (part .declaration) * K) c K (declarationWith rules c within) := by
  have hstatement := judged_statementWith hrules hK within
  cases hrest : c.rest with
  | nil =>
    have hnone : headKind c.rest = none := by
      rw [hrest]
      rfl
    have hleads : Leads (L (part .declaration) * K) c (L (part .statement) * K) c := by
      refine leads_among mem_declaration (by simp [declarationParts]) rfl fun p hp kind hhead ↦ ?_
      rw [hnone] at hhead
      cases hhead
    rw [declarationWith_nil hrest]
    exact hleads.judged hstatement
  | cons t rest =>
    refine (leads_declaration hrest).judged ?_
    rw [declarationWith_cons hrest]
    obtain ⟨kind, lexeme, line⟩ := t
    cases kind with
    | class_ =>
      simp only [declarationOf, L_part .classDecl, relaxed, L_mul, mul_assoc]
      refine (leads_only hrest rfl).judged (judged_inside ?_)
      exact judged_classDeclaration hrules hK.live _
    | fun_ =>
      simp only [declarationOf, L_part .funDecl, relaxed, L_mul, mul_assoc]
      refine (leads_only hrest rfl).judged (judged_inside (judged_map ?_))
      exact judged_routine hrules _ hK.live _
    | var =>
      have hsimple := judged_simple hrest hK.live rules within rfl
      rw [declarationWith_cons hrest] at hsimple
      exact hsimple.of_strict
    | _ => exact hstatement

/-! ### Sequences of declarations -/

theorem judged_recover {X Y : Language Token} {r : Reply n Stmt} (h : Judged True X c Y r)
    (pos : 0 < n) : Leads X c Y (recover r pos).next ∨ Spoilt X c (recover r pos).next := by
  cases r with
  | done s next shorter => exact h.imp_right And.right
  | failed d next notLonger =>
    refine .inr ?_
    rcases h with ⟨h, cause, hcause, rfl⟩ | ⟨-, h⟩
    · exact ⟨next, cause, h, hcause, [], rfl⟩
    · exact h.later (show _ = _ ++ [d] from rfl)

/-- No declaration can begin where the tokens end or with a brace that closes a block. -/
theorem misses_declaration (h : c.sees .rightBrace = true ∨ c.size = 0) :
    Misses (L (part .declaration) * K) c := by
  refine misses_of_begins rfl ?_
  rcases h with hbrace | hnone
  · rw [(sees_eq _ _).1 hbrace]
    rfl
  · rw [List.length_eq_zero_iff.1 hnone]
    rfl

theorem judged_blockWith (hrules : JudgedRules rules) (hK : Live K) (N : Nat)
    (within : c.size ≤ n) (hN : c.size = N) :
    Judged True (L (many (part .declaration)) * (L (only .rightBrace) * K)) c K
      (blockWith rules c within) := by
  have hlater : ElseClosed (L (many (part .declaration)) * (L (only .rightBrace) * K)) := by
    refine (Behind.many ?_ ?_).elseClosed
    · exact behind_of_begins (live_only _) hK rfl (by decide)
    · refine behind_of_begins (live_part ?_) ((live_many _).mul ((live_only _).mul hK)) rfl
        (by decide)
      rw [relaxed, L_add]
      exact live_statement.right _
  induction N using Nat.strongRecOn generalizing c with
  | ind N ih =>
    rw [blockWith]
    split
    next hstop =>
      exact (leads_last (misses_declaration hstop)).judged
        (judged_map (judged_expect hK (by decide)))
    next hstop =>
      have hmisses : Misses (L (only .rightBrace) * K) c :=
        misses_unseen fun hbrace ↦ hstop (.inl hbrace)
      refine (leads_more hmisses).judged ?_
      have hfirst := judged_declarationWith hrules hlater within
      have hshorter := (recover (declarationWith rules c within) (Cursor.size_pos hstop)).shorter
      have hothers := ih _ (hN ▸ hshorter) (Cursor.le_of_lt_of_le hshorter within) rfl
      rcases judged_recover hfirst (Cursor.size_pos hstop) with hleads | hspoilt
      · exact judged_map (judged_inside (hleads.judged hothers))
      · exact judged_map (judged_inside (hspoilt.judged trivial hothers))

end

theorem judged_rules (n : Nat) : JudgedRules (rules n) := by
  induction n using Nat.strongRecOn with
  | ind n ih =>
    rw [rules]
    exact ⟨fun c less K hK ↦ judged_statementWith (ih _ less) hK c.le_self,
      fun c less K hK ↦ judged_blockWith (ih _ less) hK _ c.le_self rfl⟩

end Lox.Grammar
