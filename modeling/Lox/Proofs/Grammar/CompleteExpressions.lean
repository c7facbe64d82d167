import Lox.Proofs.Grammar.SoundExpressions

/-!
What has a derivation is read. A rule reads the word of a derivation from the tokens ahead if what
comes after the word cannot go on with it: so it matters which tokens a word can begin with, and
which ones can continue it. Calls are told apart from other rules, since a dot that ends the object
of an assignment continues a call: their rule comes to a place from which it goes on.
-/

set_option autoImplicit false

namespace Lox.Grammar

/-- Whole expressions, as the rules for their parts refer to them. -/
def whole (n : Nat) : Below n Expr := fun c _ ↦ expression c

theorem expression_eq (c : Cursor) : expression c = assignment (whole c.size) c c.le_self := by
  rw [expression]
  rfl

/-- The rule of a level. -/
def levelRule {n : Nat} (expression : Below n Expr) : Level → UpTo n Expr
  | .disjunction => disjunction expression
  | .conjunction => conjunction expression
  | .equality => equality expression
  | .comparison => comparison expression
  | .term => term expression
  | .factor => factor expression

/-- The rule of the operands of a level. -/
def operandRule {n : Nat} (expression : Below n Expr) : Level → UpTo n Expr
  | .disjunction => conjunction expression
  | .conjunction => equality expression
  | .equality => comparison expression
  | .comparison => term expression
  | .term => factor expression
  | .factor => unary expression

theorem levelRule_eq {n : Nat} (expression : Below n Expr) (k : Level) :
    levelRule expression k = chain k.joiner (operandRule expression k) := by
  cases k <;> rfl

/-! ### First tokens -/

def beginsPrimary : Token.Kind → Bool
  | .number _ | .string _ | .true | .false | .nil | .this | .super | .identifier | .leftParen =>
    true
  | _ => false

def beginsExpression (kind : Token.Kind) : Bool :=
  beginsPrimary kind || decide (kind = .bang) || decide (kind = .minus)

def Level.kinds (k : Level) : List Token.Kind := k.operators.map Prod.fst

/-- What a word of the symbol begins with. -/
def First : {α : Type} → ExprSymbol α → List Token → Prop
  | _, .further k _, w => w = [] ∨ ∃ t u, w = t :: u ∧ t.kind ∈ k.kinds
  | _, .suffixes _, _ => True
  | _, .arguments, _ => True
  | _, .call, w => ∃ t u, w = t :: u ∧ beginsPrimary t.kind = true
  | _, .primary, w => ∃ t u, w = t :: u ∧ beginsPrimary t.kind = true
  | _, _, w => ∃ t u, w = t :: u ∧ beginsExpression t.kind = true

theorem begins_append {w : List Token} {begins : Token.Kind → Bool}
    (h : ∃ t u, w = t :: u ∧ begins t.kind = true) (w' : List Token) :
    ∃ t u, w ++ w' = t :: u ∧ begins t.kind = true := by
  obtain ⟨t, u, rfl, ht⟩ := h
  exact ⟨t, u ++ w', rfl, ht⟩

theorem beginsExpression_of_primary {w : List Token}
    (h : ∃ t u, w = t :: u ∧ beginsPrimary t.kind = true) :
    ∃ t u, w = t :: u ∧ beginsExpression t.kind = true := by
  obtain ⟨t, u, hw, ht⟩ := h
  exact ⟨t, u, hw, by simp [beginsExpression, ht]⟩

theorem ExprSymbol.Derives.first {α : Type} {S : ExprSymbol α} {w : List Token} {a : α}
    (h : S.Derives w a) : First S w := by
  induction h with
  | @assign n q w e name equal value ih =>
    exact ⟨n, q :: w, rfl, by rw [name]; rfl⟩
  | set object dot name equal value ih ih' => exact begins_append (beginsExpression_of_primary ih) _
  | simple value ih => exact ih
  | @level k w l w' e first others ih ih' =>
    have hfirst : ∃ t u, w = t :: u ∧ beginsExpression t.kind = true := by cases k <;> exact ih
    exact begins_append hfirst w'
  | lastOperand => exact Or.inl rfl
  | @operator k l t w w' r e join operator right others ih ih' =>
    exact Or.inr ⟨t, w ++ w', rfl, List.mem_map_of_mem (f := Prod.fst) operator⟩
  | @sign t w op e sign operand ih =>
    refine ⟨t, w, rfl, ?_⟩
    simp only [signs, List.mem_cons, Prod.mk.injEq, List.not_mem_nil, or_false] at sign
    rcases sign with ⟨hkind, -⟩ | ⟨hkind, -⟩ <;> rw [hkind] <;> rfl
  | unsigned call ih => exact beginsExpression_of_primary ih
  | call first others ih ih' => exact begins_append ih _
  | oneExpression value ih => exact ih
  | anotherExpression value comma others ih ih' => exact begins_append ih _
  | @literal t value literal =>
    refine ⟨t, [], rfl, ?_⟩
    obtain ⟨kind, lexeme, line⟩ := t
    cases kind <;> first | rfl | cases literal
  | @this t this => exact ⟨t, [], rfl, by rw [this]; rfl⟩
  | @named n name => exact ⟨n, [], rfl, by rw [name]; rfl⟩
  | @grouping l w r e left inner right ih => exact ⟨l, w ++ [r], rfl, by rw [left]; rfl⟩
  | @super k d n super dot name => exact ⟨k, [d, n], rfl, by rw [super]; rfl⟩
  | _ => trivial

/-! ### Tokens that continue -/

def suffixKinds : List Token.Kind := [.leftParen, .dot]

/-- The levels that operands of a level may hold operators of. -/
def Level.tighter : Level → List Level
  | .disjunction => [.conjunction, .equality, .comparison, .term, .factor]
  | .conjunction => [.equality, .comparison, .term, .factor]
  | .equality => [.comparison, .term, .factor]
  | .comparison => [.term, .factor]
  | .term => [.factor]
  | .factor => []

/-- Tokens that can go on with a word of an operand. -/
def Level.operandKinds (k : Level) : List Token.Kind := k.tighter.flatMap kinds ++ suffixKinds

/-- Tokens that can go on with a word of the level. -/
def Level.continuing (k : Level) : List Token.Kind := k.kinds ++ k.operandKinds

/-- What comes next, if anything does, is none of these tokens. -/
def Stops (kinds : List Token.Kind) (rest : List Token) : Prop :=
  ∀ t u, rest = t :: u → t.kind ∉ kinds

theorem Stops.mono {kinds kinds' : List Token.Kind} {rest : List Token} (h : Stops kinds rest)
    (hsub : ∀ kind ∈ kinds', kind ∈ kinds) : Stops kinds' rest :=
  fun t u hrest hmem ↦ h t u hrest (hsub _ hmem)

theorem stops_cons {kinds : List Token.Kind} {t : Token} {rest : List Token} (h : t.kind ∉ kinds) :
    Stops kinds (t :: rest) := by
  intro t' u heq
  cases heq
  exact h

theorem Level.kinds_not_operandKinds (k : Level) : ∀ kind ∈ k.kinds, kind ∉ k.operandKinds := by
  cases k <;> decide

theorem Level.continuing_subset (k : Level) : ∀ kind ∈ k.continuing,
    kind ∈ Level.continuing .disjunction := by
  cases k <;> decide

/-! ### Replies -/

/-- The answer is this tree, but for identities, and reading stands at `rest`. Nothing has been
reported. -/
def Gives {α : Type} [Tree α] {n : Nat} (c : Cursor) (rest : List Token) (a : α) (r : Reply n α) :
    Prop :=
  r.Ends (fun v c' ↦ c'.rest = rest ∧ c'.reports = c.reports ∧ Tree.unnumbered v = a) fun _ ↦ False

section

variable {n size : Nat} {c : Cursor} {w rest : List Token}

theorem rest_skip {t : Token} (h : c.rest = t :: rest) : c.skip.rest = rest := by
  rw [Cursor.skip, h]
  rfl

theorem sees_of_cons {t : Token} (h : c.rest = t :: rest) (kind : Token.Kind) :
    c.sees kind = decide (t.kind = kind) := by
  unfold Cursor.sees
  rw [h]

/-- A token that stops is not seen. -/
theorem sees_of_stops {kinds : List Token.Kind} (h : Stops kinds c.rest) {kind : Token.Kind}
    (hmem : kind ∈ kinds) : c.sees kind = false := by
  cases hrest : c.rest with
  | nil =>
    unfold Cursor.sees
    rw [hrest]
  | cons t u =>
    rw [sees_of_cons hrest]
    refine decide_eq_false fun heq ↦ ?_
    exact h t u hrest (heq ▸ hmem)

/-- A token that is expected and comes next. -/
theorem expect_eq {t : Token} (h : c.rest = t :: rest) {kind : Token.Kind} (hkind : t.kind = kind)
    (cause : GrammarError) :
    (c.expect kind cause).Ends (fun v c' ↦ v = t ∧ c'.rest = rest ∧ c'.reports = c.reports)
      fun _ ↦ False := by
  rw [expect_cons h, if_pos hkind]
  exact ⟨rfl, rest_skip h, rfl⟩

theorem expectName_eq {t : Token} (h : c.rest = t :: rest) (hkind : t.kind = .identifier)
    (cause : GrammarError) :
    (c.expectName cause).Ends (fun v c' ↦ v = nameOf t ∧ c'.rest = rest ∧ c'.reports = c.reports)
      fun _ ↦ False := by
  refine Reply.ends_map ((expect_eq h hkind cause).imp ?_ fun _ h ↦ h)
  rintro _ _ ⟨rfl, hrest⟩
  exact ⟨rfl, hrest⟩

/-! ### Levels -/

/-- Behind an operand that nothing at its level follows there is nothing to be joined. -/
theorem gives_chainFrom_of_stops {k : Level} (operand : UpTo n Expr) (left : Expr)
    (within : c.size ≤ n) (less : c.size < size) (hstop : Stops k.kinds c.rest) :
    Gives c c.rest left.unnumbered (chainFrom k.joiner operand left c within less) := by
  have hnone : c.rest.head?.bind k.joiner = none := by
    refine Option.bind_eq_none_iff.2 fun t ht ↦ ?_
    obtain ⟨u, hrest⟩ := List.head?_eq_some_iff.1 ht
    cases hjoin : k.joiner t with
    | none => rfl
    | some f =>
      obtain ⟨join, hmem, -⟩ := (k.joiner_iff t f).1 hjoin
      exact absurd (List.mem_map_of_mem (f := Prod.fst) hmem) (hstop t u hrest)
  rw [chainFrom]
  split
  next => exact ⟨rfl, rfl, rfl⟩
  next f hf =>
    rw [hnone] at hf
    cases hf

theorem gives_levelRule {k : Level} {e : Expr} {within : c.size ≤ n}
    (h : Gives c rest e (operandRule (whole n) k c within)) (hstop : Stops k.kinds rest) :
    Gives c rest e (levelRule (whole n) k c within) := by
  rw [levelRule_eq]
  refine Reply.ends_bind h ?_
  rintro left after less ⟨hrest, hreports, hleft⟩
  have hlast := gives_chainFrom_of_stops (k := k) (operandRule (whole n) k) left
    (Cursor.le_of_lt_of_le less within) less (hrest ▸ hstop)
  refine hlast.imp ?_ fun _ h ↦ h
  rintro v c' ⟨hrest', hreports', hv⟩
  exact ⟨hrest'.trans hrest, hreports'.trans hreports, hv.trans hleft⟩

end

/-- What it means that the words of a symbol are read. -/
def Complete : {α : Type} → ExprSymbol α → List Token → α → Prop
  | _, .expression, w, e => ∀ c rest, c.rest = w ++ rest →
    Stops (.equal :: Level.continuing .disjunction) rest → Gives c rest e (expression c)
  | _, .level k, w, e => ∀ n c within rest, c.rest = w ++ rest → Stops k.continuing rest →
    Gives c rest e (levelRule (whole n) k c within)
  | _, .further k left, w, e => ∀ n size left' c within less rest, left'.unnumbered = left →
    c.rest = w ++ rest → Stops k.continuing rest →
      Gives c rest e (@chainFrom k.joiner n size (operandRule (whole n) k) left' c within less)
  | _, .unary, w, e => ∀ n c within rest, c.rest = w ++ rest → Stops suffixKinds rest →
    Gives c rest e (unary (whole n) c within)
  | _, .call, w, e => ∀ n c within rest, c.rest = w ++ rest → ∃ v c' within' less,
    c'.rest = rest ∧ c'.reports = c.reports ∧ v.unnumbered = e ∧
      call (whole n) c within = suffixesFrom (whole n) v c' within' less
  | _, .suffixes target, w, e => ∀ n size target' c within less rest, target'.unnumbered = target →
    c.rest = w ++ rest → ∃ v c' within' less', c'.rest = rest ∧ c'.reports = c.reports ∧
      v.unnumbered = e ∧ @suffixesFrom n size (whole n) target' c within less =
        suffixesFrom (whole n) v c' within' less'
  | _, .arguments, w, es => ∀ n c less rest r, r.kind = .rightParen → c.rest = w ++ r :: rest →
    (arguments (n := n) (whole n) c less).Ends (fun v c' ↦ c'.rest = rest ∧
      c'.reports = c.reports ∧ Expr.unnumberedAll v.1 = es ∧ v.2 = r.line) fun _ ↦ False
  | _, .expressions, w, es => ∀ n c less rest, c.rest = w ++ rest →
    Stops (.comma :: .equal :: Level.continuing .disjunction) rest →
      Gives c rest es (expressions (n := n) (whole n) c less)
  | _, .primary, w, e => ∀ n c within rest, c.rest = w ++ rest →
    Gives c rest e (primary (n := n) (whole n) c within)

/-! ### Rule by rule -/

section

variable {w w' : List Token} {e e' l r : Expr} {k : Level}

theorem complete_operand (h : Complete k.operand w e) (n : Nat) (c : Cursor) (within : c.size ≤ n)
    (rest : List Token) (hrest : c.rest = w ++ rest) (hstop : Stops k.operandKinds rest) :
    Gives c rest e (operandRule (whole n) k c within) := by
  cases k <;> exact h n c within rest hrest hstop

theorem complete_level (hfirst : Complete k.operand w l) (hothers : Complete (.further k l) w' e)
    (hbegins : First (.further k l) w') : Complete (.level k) (w ++ w') e := by
  intro n c within rest hrest hstop
  have hbetween : Stops k.operandKinds (w' ++ rest) := by
    rcases hbegins with rfl | ⟨t, u, rfl, ht⟩
    · exact hstop.mono fun kind hkind ↦ List.mem_append_right _ hkind
    · exact stops_cons (k.kinds_not_operandKinds _ ht)
  rw [levelRule_eq]
  rw [List.append_assoc] at hrest
  refine Reply.ends_bind (complete_operand hfirst n c within _ hrest hbetween) ?_
  rintro left after less ⟨hafter, hreports, hleft⟩
  refine (hothers n c.size left after _ less rest hleft hafter hstop).imp ?_ fun _ h ↦ h
  rintro v c' ⟨hrest', hreports', hv⟩
  exact ⟨hrest', hreports'.trans hreports, hv⟩

theorem complete_lastOperand : Complete (.further k l) [] l := by
  intro n size left c within less rest hleft hrest hstop
  have hnone := gives_chainFrom_of_stops (k := k) (operandRule (whole n) k) left
    within less ((hrest ▸ hstop : Stops k.continuing c.rest).mono
      fun kind hkind ↦ List.mem_append_left _ hkind)
  rw [hrest, hleft] at hnone
  exact hnone

theorem complete_operator {t : Token} {join : Nat → Expr → Expr → Expr}
    (hjoin : (t.kind, join) ∈ k.operators) (hright : Complete k.operand w r)
    (hothers : Complete (.further k (join t.line l r)) w' e)
    (hbegins : First (.further k (join t.line l r)) w') :
    Complete (.further k l) (t :: (w ++ w')) e := by
  intro n size left c within less rest hleft hrest hstop
  have hbetween : Stops k.operandKinds (w' ++ rest) := by
    rcases hbegins with rfl | ⟨t', u, rfl, ht'⟩
    · exact hstop.mono fun kind hkind ↦ List.mem_append_right _ hkind
    · exact stops_cons (k.kinds_not_operandKinds _ ht')
  have hjoiner : c.rest.head?.bind k.joiner = some (join t.line) := by
    rw [hrest]
    exact (k.joiner_iff t _).2 ⟨join, hjoin, rfl⟩
  have hskip : c.skip.rest = w ++ (w' ++ rest) := (rest_skip hrest).trans (List.append_assoc ..)
  rw [chainFrom]
  split
  next hnone =>
    rw [hjoiner] at hnone
    cases hnone
  next f hf =>
    rw [hjoiner] at hf
    cases hf
    refine Reply.ends_andThen (complete_operand hright n c.skip _ _ hskip hbetween) ?_
    rintro right after shorter less ⟨hafter, hreports, hright⟩
    have hsides : (join t.line left right).unnumbered = join t.line l r := by
      obtain ⟨-, hunnumbered, -⟩ := Level.operators_tree hjoin t.line left right
      rw [hunnumbered, hleft, show right.unnumbered = r from hright]
    refine (hothers n size _ after _ less rest hsides hafter hstop).imp ?_ fun _ h ↦ h
    rintro v c' ⟨hrest', hreports', hv⟩
    exact ⟨hrest', hreports'.trans hreports, hv⟩

/-! ### Calls -/

theorem suffixesFrom_of_stops {n size : Nat} {c : Cursor} (target : Expr) (within : c.size ≤ n)
    (less : c.size < size) (hstop : Stops suffixKinds c.rest) :
    suffixesFrom (whole n) target c within less = .done target c less := by
  have hparen : c.sees .leftParen = false := sees_of_stops hstop (List.mem_cons_self ..)
  have hdot : c.sees .dot = false :=
    sees_of_stops hstop (List.mem_cons_of_mem _ (List.mem_cons_self ..))
  rw [suffixesFrom]
  simp [hparen, hdot]

/-- An expression without a sign ends where no suffix follows. -/
theorem gives_unary {n : Nat} {c : Cursor} {rest : List Token} {t : Token} {u : List Token}
    (hrest : c.rest = t :: u) (hbegins : beginsPrimary t.kind = true) {within : c.size ≤ n}
    (hcall : ∃ v c' within' less, c'.rest = rest ∧ c'.reports = c.reports ∧ v.unnumbered = e ∧
      call (whole n) c within = suffixesFrom (whole n) v c' within' less)
    (hstop : Stops suffixKinds rest) : Gives c rest e (unary (whole n) c within) := by
  obtain ⟨v, c', within', less, hrest', hreports, hv, heq⟩ := hcall
  have hanswer : call (whole n) c within = .done v c' less :=
    heq.trans (suffixesFrom_of_stops v within' less (hrest' ▸ hstop))
  have hplain : Gives c rest e (call (whole n) c within) := by
    rw [hanswer]
    exact ⟨hrest', hreports, hv⟩
  rw [unary_cons hrest]
  split
  next => exact hplain
  next op hop =>
    have hsign := (unaryOp?_iff t op).1 hop
    simp only [signs, List.mem_cons, Prod.mk.injEq, List.not_mem_nil, or_false] at hsign
    rcases hsign with ⟨hkind, -⟩ | ⟨hkind, -⟩ <;> rw [hkind] at hbegins <;> cases hbegins

theorem complete_unsigned (h : Complete .call w e) (hbegins : First .call w) :
    Complete .unary w e := by
  intro n c within rest hrest hstop
  obtain ⟨t, u, rfl, ht⟩ := hbegins
  exact gives_unary hrest ht (h n c within rest hrest) hstop

theorem complete_sign {t : Token} {op : UnaryOp} (hsign : (t.kind, op) ∈ signs)
    (h : Complete .unary w e) : Complete .unary (t :: w) (.unary op t.line e) := by
  intro n c within rest hrest hstop
  have hop := (unaryOp?_iff t op).2 hsign
  rw [unary_cons hrest, hop]
  refine Reply.ends_map (Reply.ends_inside ((h n c.skip _ rest (rest_skip hrest) hstop).imp ?_
    fun _ h ↦ h))
  rintro v c' ⟨hrest', hreports, hv⟩
  exact ⟨hrest', hreports, congrArg (Expr.unary op t.line) hv⟩

theorem complete_call (hfirst : Complete .primary w e) (hothers : Complete (.suffixes e) w' e') :
    Complete .call (w ++ w') e' := by
  intro n c within rest hrest
  rw [List.append_assoc] at hrest
  have hprimary := hfirst n c within _ hrest
  unfold call
  cases hreply : primary (whole n) c within with
  | failed cause next notLonger =>
    rw [hreply] at hprimary
    exact hprimary.elim
  | done target next shorter =>
    rw [hreply] at hprimary
    obtain ⟨hnext, hreports, htarget⟩ := hprimary
    obtain ⟨v, c', within', less, hrest', hreports', hv, heq⟩ :=
      hothers n c.size target next _ shorter rest htarget hnext
    exact ⟨v, c', within', less, hrest', hreports'.trans hreports, hv, heq⟩

theorem complete_lastSuffix : Complete (.suffixes e) [] e := by
  intro n size target c within less rest htarget hrest
  exact ⟨target, c, within, less, hrest, rfl, htarget, rfl⟩

theorem complete_property {d n : Token} (hdot : d.kind = .dot) (hname : n.kind = .identifier)
    (hothers : Complete (.suffixes (.get e (nameOf n))) w e') :
    Complete (.suffixes e) (d :: n :: w) e' := by
  intro N size target c within less rest htarget hrest
  have hparen : c.sees .leftParen = false := by rw [sees_of_cons hrest, hdot]; rfl
  have hseen : c.sees .dot = true := by rw [sees_of_cons hrest, hdot]; rfl
  have hexpect := expectName_eq (rest_skip hrest) hname .propertyName
  rw [suffixesFrom]
  simp only [hparen, hseen, Bool.false_eq_true, dite_false, if_true]
  cases hreply : c.skip.expectName .propertyName with
  | failed cause next notLonger =>
    rw [hreply] at hexpect
    exact hexpect.elim
  | done name next shorter =>
    rw [hreply] at hexpect
    obtain ⟨rfl, hnext, hreports⟩ := hexpect
    obtain ⟨v, c', within', less', hrest', hreports', hv, heq⟩ :=
      hothers N size (.get target (nameOf n)) next (Cursor.le_of_lt_skip shorter within)
        (Nat.lt_trans shorter (c.skip_lt less)) rest (by rw [Expr.unnumbered, htarget]) hnext
    exact ⟨v, c', within', less', hrest', hreports'.trans hreports, hv, heq⟩

theorem complete_application {t p : Token} {es : List Expr} (hleft : t.kind = .leftParen)
    (hargs : Complete .arguments w es) (hright : p.kind = .rightParen)
    (hothers : Complete (.suffixes (.call e p.line es)) w' e') :
    Complete (.suffixes e) (t :: (w ++ p :: w')) e' := by
  intro N size target c within less rest htarget hrest
  have hseen : c.sees .leftParen = true := by rw [sees_of_cons hrest, hleft]; rfl
  have hskip : c.skip.rest = w ++ p :: (w' ++ rest) :=
    (rest_skip hrest).trans (List.append_assoc ..)
  have hanswer := hargs N c.skip (Cursor.skip_lt_of_le hseen within) _ p hright hskip
  rw [suffixesFrom]
  simp only [hseen, dite_true]
  cases hreply : arguments (whole N) c.skip (Cursor.skip_lt_of_le hseen within) with
  | failed cause next notLonger =>
    rw [hreply] at hanswer
    exact hanswer.elim
  | done values next shorter =>
    rw [hreply] at hanswer
    obtain ⟨hnext, hreports, hvalues, hline⟩ := hanswer
    obtain ⟨v, c', within', less', hrest', hreports', hv, heq⟩ :=
      hothers N size (.call target values.2 values.1) next (Cursor.le_of_lt_skip shorter within)
        (Nat.lt_trans shorter (c.skip_lt less)) rest
        (by rw [Expr.unnumbered, htarget, hvalues, hline]) hnext
    exact ⟨v, c', within', less', hrest', hreports'.trans hreports, hv, heq⟩

/-! ### Primary expressions -/

theorem complete_literal {t : Token} {value : Literal} (h : literal? t.kind = some value) :
    Complete .primary [t] (.literal value) := by
  intro n c within rest hrest
  have hskip := rest_skip hrest
  rw [primary_cons hrest]
  obtain ⟨kind, lexeme, line⟩ := t
  cases kind <;> cases h <;> exact ⟨hskip, rfl, rfl⟩

theorem complete_this {t : Token} (h : t.kind = .this) :
    Complete .primary [t] (.this 0 t.line) := by
  intro n c within rest hrest
  have hskip := rest_skip hrest
  rw [primary_cons hrest]
  obtain ⟨kind, lexeme, line⟩ := t
  cases h
  exact ⟨hskip, rfl, rfl⟩

theorem complete_named {t : Token} (h : t.kind = .identifier) :
    Complete .primary [t] (.var 0 (nameOf t)) := by
  intro n c within rest hrest
  have hskip := rest_skip hrest
  rw [primary_cons hrest]
  obtain ⟨kind, lexeme, line⟩ := t
  cases h
  exact ⟨hskip, rfl, rfl⟩

theorem complete_grouping {t p : Token} (hleft : t.kind = .leftParen) (h : Complete .expression w e)
    (hright : p.kind = .rightParen) : Complete .primary (t :: (w ++ [p])) (.grouping e) := by
  intro n c within rest hrest
  have hskip : c.skip.rest = w ++ p :: rest := (rest_skip hrest).trans (List.append_assoc ..)
  have hstop : Stops (.equal :: Level.continuing .disjunction) (p :: rest) :=
    stops_cons (by rw [hright]; decide)
  rw [primary_cons hrest]
  unfold primaryOf
  simp only [hleft]
  refine Reply.ends_inside (Reply.ends_bind (h c.skip _ hskip hstop) ?_)
  rintro v next less ⟨hnext, hreports, hv⟩
  refine Reply.ends_map (Reply.ends_inside ((expect_eq hnext hright _).imp ?_ fun _ h ↦ h))
  rintro r last ⟨_, hlast, hreports'⟩
  exact ⟨hlast, hreports'.trans hreports, congrArg Expr.grouping hv⟩

theorem complete_super {t d m : Token} (h : t.kind = .super) (hdot : d.kind = .dot)
    (hname : m.kind = .identifier) :
    Complete .primary [t, d, m] (.super 0 t.line (nameOf m)) := by
  intro n c within rest hrest
  rw [primary_cons hrest]
  unfold primaryOf
  simp only [h]
  refine Reply.ends_inside (Reply.ends_bind (expect_eq (rest_skip hrest) hdot _) ?_)
  rintro d' next less ⟨_, hnext, hreports⟩
  refine Reply.ends_andThen (expectName_eq hnext hname _) ?_
  rintro method after _ _ ⟨hmethod, hafter, hreports'⟩
  subst hmethod
  exact ⟨hafter, hreports'.trans hreports, rfl⟩

/-! ### Arguments -/

theorem complete_oneExpression (h : Complete .expression w e) : Complete .expressions w [e] := by
  intro n c less rest hrest hstop
  rw [expressions]
  have hstop' := hstop.mono fun kind hkind ↦ List.mem_cons_of_mem _ hkind
  refine Reply.ends_bind (h c rest hrest hstop') ?_
  rintro v next shorter ⟨hnext, hreports, hv⟩
  have hcomma : next.sees .comma = false := sees_of_stops (hnext ▸ hstop) (List.mem_cons_self ..)
  simp only [hcomma, Bool.false_eq_true, if_false]
  exact ⟨hnext, hreports, congrArg (fun e ↦ [e]) hv⟩

theorem complete_anotherExpression {t : Token} {es : List Expr} (h : Complete .expression w e)
    (hcomma : t.kind = .comma) (hothers : Complete .expressions w' es) :
    Complete .expressions (w ++ t :: w') (e :: es) := by
  intro n c less rest hrest hstop
  rw [List.append_assoc] at hrest
  have hbetween : Stops (.equal :: Level.continuing .disjunction) ((t :: w') ++ rest) :=
    stops_cons (by rw [hcomma]; decide)
  rw [expressions]
  refine Reply.ends_bind (h c _ hrest hbetween) ?_
  rintro v next shorter ⟨hnext, hreports, hv⟩
  have hseen : next.sees .comma = true := by rw [sees_of_cons hnext, hcomma]; rfl
  simp only [hseen, if_true]
  refine Reply.ends_map (Reply.ends_inside ((hothers n next.skip _ rest (rest_skip hnext) hstop).imp
    ?_ fun _ h ↦ h))
  rintro vs last ⟨hlast, hreports', hvs⟩
  refine ⟨hlast, hreports'.trans hreports, ?_⟩
  change v.unnumbered :: Expr.unnumberedAll vs = e :: es
  rw [show v.unnumbered = e from hv, show Expr.unnumberedAll vs = es from hvs]

theorem complete_noArgument : Complete .arguments [] [] := by
  intro n c less rest r hright hrest
  have hseen : c.sees .rightParen = true := by
    rw [sees_of_cons hrest, hright]
    exact decide_eq_true rfl
  unfold arguments
  simp only [hseen, if_true]
  refine Reply.ends_map ((expect_eq hrest hright _).imp ?_ fun _ h ↦ h)
  rintro t last ⟨ht, hlast, hreports⟩
  exact ⟨hlast, hreports, rfl, congrArg Token.line ht⟩

theorem complete_arguments {es : List Expr} (h : Complete .expressions w es)
    (hbegins : First .expressions w) : Complete .arguments w es := by
  intro n c less rest r hright hrest
  obtain ⟨t, u, rfl, ht⟩ := hbegins
  have hparen : c.sees .rightParen = false := by
    rw [sees_of_cons hrest]
    refine decide_eq_false fun heq ↦ ?_
    rw [heq] at ht
    cases ht
  have hstop : Stops (.comma :: .equal :: Level.continuing .disjunction) (r :: rest) :=
    stops_cons (by rw [hright]; decide)
  unfold arguments
  simp only [hparen, Bool.false_eq_true, if_false]
  refine Reply.ends_bind (h n c less _ hrest hstop) ?_
  rintro vs next shorter ⟨hnext, hreports, hvs⟩
  refine Reply.ends_map (Reply.ends_inside ((expect_eq hnext hright _).imp ?_ fun _ h ↦ h))
  rintro t last ⟨ht, hlast, hreports'⟩
  exact ⟨hlast, hreports'.trans hreports, hvs, congrArg Token.line ht⟩

/-! ### Assignments -/

/-- At the loosest level too an expression ends where nothing goes on with it. -/
theorem gives_disjunction {n : Nat} {c : Cursor} {rest : List Token} {within : c.size ≤ n}
    (h : Gives c rest e (unary (whole n) c within))
    (hstop : Stops (Level.continuing .disjunction) rest) :
    Gives c rest e (disjunction (whole n) c within) := by
  have hkinds (k : Level) : Stops k.kinds rest :=
    hstop.mono fun kind hkind ↦ k.continuing_subset kind (List.mem_append_left _ hkind)
  have hfactor := gives_levelRule (k := .factor) h (hkinds _)
  have hterm := gives_levelRule (k := .term) hfactor (hkinds _)
  have hcomparison := gives_levelRule (k := .comparison) hterm (hkinds _)
  have hequality := gives_levelRule (k := .equality) hcomparison (hkinds _)
  have hconjunction := gives_levelRule (k := .conjunction) hequality (hkinds _)
  exact gives_levelRule (k := .disjunction) hconjunction (hkinds _)

/-- A call before an equals sign is read as a target. -/
theorem gives_target {q : Token} (hequal : q.kind = .equal) (h : Complete .call w e)
    (hbegins : First .call w) {n : Nat} {c : Cursor} (within : c.size ≤ n) {rest : List Token}
    (hrest : c.rest = w ++ q :: rest) :
    Gives c (q :: rest) e (disjunction (whole n) c within) := by
  obtain ⟨t, u, rfl, ht⟩ := hbegins
  refine gives_disjunction (gives_unary hrest ht (h n c within _ hrest) ?_) ?_
  · exact stops_cons (by rw [hequal]; decide)
  · exact stops_cons (by rw [hequal]; decide)

theorem complete_simple (h : Complete (.level .disjunction) w e) : Complete .expression w e := by
  intro c rest hrest hstop
  rw [expression_eq]
  refine Reply.ends_bind (h c.size c _ rest hrest
    (hstop.mono fun kind hkind ↦ List.mem_cons_of_mem _ hkind)) ?_
  rintro v next shorter ⟨hnext, hreports, hv⟩
  have hequal : next.sees .equal = false := sees_of_stops (hnext ▸ hstop) (List.mem_cons_self ..)
  simp only [hequal, Bool.false_eq_true, if_false]
  exact ⟨hnext, hreports, hv⟩

/-- An assignment to a target that has been read. -/
theorem gives_assignment {q : Token} (hequal : q.kind = .equal) {c : Cursor} {rest : List Token}
    {target a : Expr}
    (htarget : Gives c (q :: (w ++ rest)) target (disjunction (whole c.size) c c.le_self))
    (hvalue : Complete .expression w e)
    (hstop : Stops (.equal :: Level.continuing .disjunction) rest)
    (hassign : ∀ (n : Nat) (v value : Expr) (equals : Diagnostic) (last : Cursor)
      (less : last.size < n), v.unnumbered = target → value.unnumbered = e →
        Gives last last.rest a (assignTo v equals value last less)) :
    Gives c rest a (expression c) := by
  rw [expression_eq]
  refine Reply.ends_bind htarget ?_
  rintro v next shorter ⟨hnext, hreports, hv⟩
  have hseen : next.sees .equal = true := by rw [sees_of_cons hnext, hequal]; rfl
  simp only [hseen, if_true]
  refine Reply.ends_andThen (hvalue next.skip rest (rest_skip hnext) hstop) ?_
  rintro value last _ less ⟨hlast, hreports', hvalue⟩
  refine (hassign _ v value _ last less hv hvalue).imp ?_ fun _ h ↦ h
  rintro a' c' ⟨hrest, hreports'', ha⟩
  exact ⟨hrest.trans hlast, hreports''.trans (hreports'.trans hreports), ha⟩

theorem complete_assign {t q : Token} (hname : t.kind = .identifier) (hequal : q.kind = .equal)
    (hvalue : Complete .expression w e) :
    Complete .expression (t :: q :: w) (.assign 0 (nameOf t) e) := by
  intro c rest hrest hstop
  have hcall : Complete .call ([t] ++ []) (.var 0 (nameOf t)) :=
    complete_call (complete_named hname) complete_lastSuffix
  have hbegins : First .call ([t] ++ []) := ⟨t, [], rfl, by rw [hname]; rfl⟩
  refine gives_assignment hequal (gives_target hequal hcall hbegins _ hrest) hvalue hstop
    fun n v value equals last less hv hvalue ↦ ?_
  cases v with
  | var id name =>
    cases hv
    exact ⟨rfl, rfl, congrArg (Expr.assign 0 _) hvalue⟩
  | _ => cases hv

theorem complete_set {d t q : Token} (hobject : Complete .call w e) (hbegins : First .call w)
    (hdot : d.kind = .dot) (hname : t.kind = .identifier) (hequal : q.kind = .equal)
    (hvalue : Complete .expression w' e') :
    Complete .expression (w ++ d :: t :: q :: w') (.set e (nameOf t) e') := by
  intro c rest hrest hstop
  have hcall : Complete .call (w ++ [d, t]) (.get e (nameOf t)) := by
    intro n c within rest hrest
    rw [List.append_assoc] at hrest
    obtain ⟨v, c', within', less, hrest', hreports, hv, heq⟩ := hobject n c within _ hrest
    have hproperty : Complete (.suffixes e) [d, t] (.get e (nameOf t)) :=
      complete_property hdot hname complete_lastSuffix
    obtain ⟨v', c'', within'', less', hrest'', hreports', hv', heq'⟩ :=
      hproperty n c.size v c' within' less rest hv hrest'
    exact ⟨v', c'', within'', less', hrest'', hreports'.trans hreports, hv', heq.trans heq'⟩
  have hrest' : c.rest = (w ++ [d, t]) ++ q :: (w' ++ rest) := by
    rw [hrest]
    simp only [List.append_assoc, List.cons_append, List.nil_append]
  refine gives_assignment hequal (gives_target hequal hcall (begins_append hbegins _) _ hrest')
    hvalue hstop fun n v value equals last less hv hvalue ↦ ?_
  cases v with
  | get object name =>
    cases hv
    exact ⟨rfl, rfl, congrArg (Expr.set object.unnumbered _) hvalue⟩
  | _ => cases hv

end

/-- The words of every symbol of expressions are read. -/
theorem ExprSymbol.Derives.complete {α : Type} {S : ExprSymbol α} {w : List Token} {a : α}
    (h : S.Derives w a) : Complete S w a := by
  induction h with
  | assign name equal value ih => exact complete_assign name equal ih
  | set object dot name equal value ih ih' => exact complete_set ih object.first dot name equal ih'
  | simple value ih => exact complete_simple ih
  | level first others ih ih' => exact complete_level ih ih' others.first
  | lastOperand => exact complete_lastOperand
  | operator operator right others ih ih' => exact complete_operator operator ih ih' others.first
  | sign sign operand ih => exact complete_sign sign ih
  | unsigned call ih => exact complete_unsigned ih call.first
  | call first others ih ih' => exact complete_call ih ih'
  | lastSuffix => exact complete_lastSuffix
  | application left arguments right others ih ih' => exact complete_application left ih right ih'
  | property dot name others ih => exact complete_property dot name ih
  | noArgument => exact complete_noArgument
  | arguments some_ ih => exact complete_arguments ih some_.first
  | oneExpression value ih => exact complete_oneExpression ih
  | anotherExpression value comma others ih ih' => exact complete_anotherExpression ih comma ih'
  | literal literal => exact complete_literal literal
  | this this => exact complete_this this
  | named name => exact complete_named name
  | grouping left inner right ih => exact complete_grouping left ih right
  | super super dot name => exact complete_super super dot name

end Lox.Grammar
