import Lox.Proofs.Grammar.CompleteExpressions
import Lox.Proofs.Grammar.SoundStatements

/-!
Statements and declarations that have a derivation are read, and nothing is reported on the way.
An `else` behind an open statement would be taken for its own, so none may come there; in a nearest
derivation none does.
-/

set_option autoImplicit false

namespace Lox.Grammar

/-! ### First tokens -/

/-- No declaration begins like this. -/
def endsBlock : List Token.Kind := [.rightBrace, .else_]

/-- No statement that is not a declaration begins like this. -/
def declarationKinds : List Token.Kind := [.rightBrace, .else_, .class_, .fun_, .var]

theorem endsBlock_subset : endsBlock ⊆ declarationKinds := by decide

/-- What a word of the symbol begins with. -/
def Symbol.First : {α : Type} → Symbol α → List Token → Prop
  | _, .declarations, w => w = [] ∨ ∃ t u, w = t :: u ∧ t.kind ∉ endsBlock
  | _, .declaration, w => ∃ t u, w = t :: u ∧ t.kind ∉ endsBlock
  | _, .varDecl, w => ∃ t u, w = t :: u ∧ t.kind = .var
  | _, .statement _, w => ∃ t u, w = t :: u ∧ t.kind ∉ declarationKinds
  | _, .exprStmt, w => ∃ t u, w = t :: u ∧ beginsExpression t.kind = true
  | _, .block, w => ∃ t u, w = t :: u ∧ t.kind = .leftBrace
  | _, .functions, w => w = [] ∨ ∃ t u, w = t :: u ∧ t.kind = .identifier
  | _, .function, w => ∃ t u, w = t :: u ∧ t.kind = .identifier
  | _, .names, w => ∃ t u, w = t :: u ∧ t.kind = .identifier
  | _, _, _ => True

theorem ne_of_beginsExpression {kind kind' : Token.Kind} (h : beginsExpression kind = true)
    (h' : beginsExpression kind' = false) : kind ≠ kind' := by
  rintro rfl
  rw [h] at h'
  cases h'

theorem not_declaration_of_beginsExpression {kind : Token.Kind} (h : beginsExpression kind = true) :
    kind ∉ declarationKinds := by
  simp only [declarationKinds, List.mem_cons, List.not_mem_nil, or_false, not_or]
  exact ⟨ne_of_beginsExpression h rfl, ne_of_beginsExpression h rfl, ne_of_beginsExpression h rfl,
    ne_of_beginsExpression h rfl, ne_of_beginsExpression h rfl⟩

theorem Symbol.Derives.first {nearest : Bool} {α : Type} {S : Symbol α} {w : List Token} {a : α}
    (h : S.Derives nearest w a) : S.First w := by
  have hbegins {t : Token} {u : List Token} {kind : Token.Kind} {kinds : List Token.Kind}
      (hkind : t.kind = kind) (hnot : kind ∉ kinds) :
      ∃ t' u', t :: u = t' :: u' ∧ t'.kind ∉ kinds :=
    ⟨t, u, rfl, hkind ▸ hnot⟩
  induction h with
  | nothing => exact Or.inl rfl
  | @another w w' s ss first others ih ih' =>
    obtain ⟨t, u, rfl, ht⟩ := ih
    exact Or.inr ⟨t, u ++ w', rfl, ht⟩
  | classDecl class_ name heritage left methods_ right ih ih' => exact hbegins class_ (by decide)
  | funDecl fun_ function ih => exact hbegins fun_ (by decide)
  | varDeclaration decl ih =>
    obtain ⟨t, u, rfl, ht⟩ := ih
    exact hbegins ht (by decide)
  | plain statement ih =>
    obtain ⟨t, u, rfl, ht⟩ := ih
    exact ⟨t, u, rfl, fun hmem ↦ ht (endsBlock_subset hmem)⟩
  | noFunction => exact Or.inl rfl
  | @anotherFunction w w' r rs first others ih ih' =>
    obtain ⟨t, u, rfl, ht⟩ := ih
    exact Or.inr ⟨t, u ++ w', rfl, ht⟩
  | @function n l w r w' names body name left parameters right block ih ih' =>
    exact ⟨n, _, rfl, name⟩
  | @oneName n name => exact ⟨n, [], rfl, name⟩
  | @anotherName n c w names name comma others ih => exact ⟨n, c :: w, rfl, name⟩
  | @undefined v n t var name semicolon => exact ⟨v, [n, t], rfl, var⟩
  | @defined v n q w e t var name equal value semicolon => exact ⟨v, _, rfl, var⟩
  | exprStmt value semicolon => exact begins_append value.first _
  | expression statement ih =>
    obtain ⟨t, u, rfl, ht⟩ := ih
    exact ⟨t, u, rfl, not_declaration_of_beginsExpression ht⟩
  | printStmt print value semicolon => exact hbegins print (by decide)
  | returnStmt return_ value semicolon ih => exact hbegins return_ (by decide)
  | blockStmt block ih =>
    obtain ⟨t, u, rfl, ht⟩ := ih
    exact hbegins ht (by decide)
  | whileStmt while_ left test right body ih => exact hbegins while_ (by decide)
  | forStmt for_ left initializer test_ semicolon increment_ right body_ ih ih' ih'' ih₃ =>
    exact hbegins for_ (by decide)
  | ifThen if_ left test right consequent ih => exact hbegins if_ (by decide)
  | ifElse if_ left test right consequent closed else_ alternative ih ih' =>
    exact hbegins if_ (by decide)
  | @block l w r ss left body right ih => exact ⟨l, w ++ [r], rfl, left⟩
  | _ => trivial

/-! ### Parts of statements -/

/-- What it means that the words of a symbol are read. -/
def Symbol.Complete : {α : Type} → Symbol α → List Token → α → Prop
  | _, .program, _, _ => True
  | _, .declarations, w, ss =>
    (∀ n c within rest r, r.kind = .rightBrace → c.rest = w ++ r :: rest →
      Gives c rest ss (blockWith (rules n) c within)) ∧
    ∀ c, c.rest = w → Stmt.unnumberedAll (Grammar.declarations c).1 = ss ∧
      (Grammar.declarations c).2.reports = c.reports
  | _, .declaration, w, s => ∀ n c within rest, c.rest = w ++ rest → Stops [.else_] rest →
    Gives c rest s (declarationWith (rules n) c within)
  | _, .heritage, w, superclass => (w = [] ∧ superclass = none) ∨ ∃ l n, w = [l, n] ∧
    l.kind = .less ∧ n.kind = .identifier ∧ superclass = some ⟨0, nameOf n⟩
  | _, .functions, w, rs => ∀ n c within rest r, r.kind = .rightBrace → c.rest = w ++ r :: rest →
    Gives c rest rs (methods (rules n) c within)
  | _, .function, w, r => ∀ n kind c within rest, c.rest = w ++ rest →
    Gives c rest r (routine (rules n) kind c within)
  | _, .parameters, w, ns => ∀ c rest r, r.kind = .rightParen → c.rest = w ++ r :: rest →
    Gives c rest ns (Grammar.parameters c)
  | _, .names, w, ns => ∀ c rest, c.rest = w ++ rest → Stops [.comma] rest →
    Gives c rest ns (Grammar.names c)
  | _, .varDecl, w, s => ∀ t u, w = t :: u → ∀ c rest, c.rest = u ++ rest →
    Gives c rest s (varDeclaration c)
  | _, .statement isOpen, w, s => ∀ n c within rest, c.rest = w ++ rest →
    (isOpen = true → Stops [.else_] rest) → Gives c rest s (statementWith (rules n) c within)
  | _, .exprStmt, w, s => ∀ c rest, c.rest = w ++ rest → Gives c rest s (expressionStatement c)
  | _, .initializer, w, first => ∀ c rest, c.rest = w ++ rest →
    Gives c rest first (forInitializer c)
  | _, .block, w, ss => ∀ t u, w = t :: u → ∀ n c less rest, c.rest = u ++ rest →
    Gives c rest ss ((rules n).block c less)
  | _, .optional, w, o => ∀ c rest t, (t.kind = .semicolon ∨ t.kind = .rightParen) →
    c.rest = w ++ t :: rest → ∀ cause, Gives c rest o (optionalUntil t.kind cause c)

section

variable {w w' : List Token} {e : Expr} {c : Cursor} {rest : List Token} {t : Token}

theorem stops_closing (h : t.kind = .semicolon ∨ t.kind = .rightParen) :
    Stops (.equal :: Level.continuing .disjunction) (t :: rest) := by
  rcases h with h | h
  · exact stops_cons (by rw [h]; decide)
  · exact stops_cons (by rw [h]; decide)

theorem gives_expressionUntil (h : ExprSymbol.Derives .expression w e)
    (ht : t.kind = .semicolon ∨ t.kind = .rightParen) (hrest : c.rest = w ++ t :: rest)
    (cause : GrammarError) : Gives c rest e (expressionUntil t.kind cause c) := by
  refine Reply.ends_bind (h.complete c _ hrest (stops_closing ht)) ?_
  rintro v next _ ⟨hnext, hreports, hv⟩
  refine Reply.ends_map (Reply.ends_inside ((expect_eq hnext rfl cause).imp ?_ fun _ h ↦ h))
  rintro _ last ⟨_, hlast, hreports'⟩
  exact ⟨hlast, hreports'.trans hreports, hv⟩

theorem complete_absent : Symbol.Complete .optional [] none := by
  intro c rest t _ hrest cause
  have hseen : c.sees t.kind = true := by rw [sees_of_cons hrest]; exact decide_eq_true rfl
  unfold optionalUntil
  simp only [hseen, dite_true]
  exact ⟨rest_skip hrest, rfl, rfl⟩

theorem complete_present (h : ExprSymbol.Derives .expression w e) :
    Symbol.Complete .optional w (some e) := by
  intro c rest t ht hrest cause
  obtain ⟨t', u, rfl, hbegins⟩ := h.first
  have hseen : c.sees t.kind = false := by
    rw [sees_of_cons hrest]
    refine decide_eq_false (ne_of_beginsExpression hbegins ?_)
    rcases ht with ht | ht <;> rw [ht] <;> rfl
  unfold optionalUntil
  simp only [hseen, Bool.false_eq_true, dite_false]
  refine Reply.ends_bind (h.complete c _ hrest (stops_closing ht)) ?_
  rintro v next _ ⟨hnext, hreports, hv⟩
  refine Reply.ends_map (Reply.ends_inside ((expect_eq hnext rfl cause).imp ?_ fun _ h ↦ h))
  rintro _ last ⟨_, hlast, hreports'⟩
  exact ⟨hlast, hreports'.trans hreports, congrArg some hv⟩

theorem gives_condition {k l : Token} (hk : c.rest = k :: l :: (w ++ t :: rest))
    (hleft : l.kind = .leftParen) (h : ExprSymbol.Derives .expression w e)
    (hright : t.kind = .rightParen) (opening : GrammarError) :
    Gives c rest e (condition opening c.skip) := by
  refine Reply.ends_bind (expect_eq (rest_skip hk) hleft opening) ?_
  rintro _ next _ ⟨_, hnext, hreports⟩
  have hvalue := gives_expressionUntil h (Or.inr hright) hnext .conditionClosing
  rw [hright] at hvalue
  refine Reply.ends_inside (hvalue.imp ?_ fun _ h ↦ h)
  rintro v last ⟨hlast, hreports', hv⟩
  exact ⟨hlast, hreports'.trans hreports, hv⟩

theorem complete_exprStmt (h : ExprSymbol.Derives .expression w e) (ht : t.kind = .semicolon) :
    Symbol.Complete .exprStmt (w ++ [t]) (.expression e) := by
  intro c rest hrest
  rw [List.append_assoc] at hrest
  have hvalue := gives_expressionUntil h (Or.inl ht) hrest .expressionEnd
  rw [ht] at hvalue
  refine Reply.ends_map (hvalue.imp ?_ fun _ h ↦ h)
  rintro v last ⟨hlast, hreports, hv⟩
  exact ⟨hlast, hreports, congrArg Stmt.expression hv⟩

theorem complete_undefined {v n : Token} (hname : n.kind = .identifier) (ht : t.kind = .semicolon) :
    Symbol.Complete .varDecl [v, n, t] (.var (nameOf n) none) := by
  intro v' u heq c rest hrest
  cases heq
  unfold varDeclaration
  refine Reply.ends_bind (expectName_eq hrest hname _) ?_
  rintro name next _ ⟨hn, hnext, hreports⟩
  have hequal : next.sees .equal = false := by rw [sees_of_cons hnext, ht]; rfl
  simp only [hequal, Bool.false_eq_true, if_false]
  refine Reply.ends_map (Reply.ends_inside ((expect_eq hnext ht _).imp ?_ fun _ h ↦ h))
  rintro _ last ⟨_, hlast, hreports'⟩
  exact ⟨hlast, hreports'.trans hreports, congrArg (fun name ↦ Stmt.var name none) hn⟩

theorem complete_defined {v n q : Token} (hname : n.kind = .identifier) (hequal : q.kind = .equal)
    (h : ExprSymbol.Derives .expression w e) (ht : t.kind = .semicolon) :
    Symbol.Complete .varDecl (v :: n :: q :: (w ++ [t])) (.var (nameOf n) (some e)) := by
  intro v' u heq c rest hrest
  cases heq
  unfold varDeclaration
  refine Reply.ends_bind (expectName_eq hrest hname _) ?_
  rintro name next _ ⟨hn, hnext, hreports⟩
  have hseen : next.sees .equal = true := by rw [sees_of_cons hnext, hequal]; rfl
  have hskip : next.skip.rest = w ++ t :: rest := (rest_skip hnext).trans (List.append_assoc ..)
  have hvalue := gives_expressionUntil h (Or.inl ht) hskip .variableEnd
  rw [ht] at hvalue
  simp only [hseen, if_true]
  refine Reply.ends_map (Reply.ends_inside (hvalue.imp ?_ fun _ h ↦ h))
  rintro v last ⟨hlast, hreports', hv⟩
  subst hn
  exact ⟨hlast, hreports'.trans hreports, congrArg (fun e ↦ Stmt.var (nameOf n) (some e)) hv⟩

/-! ### Routines -/

theorem complete_oneName (ht : t.kind = .identifier) : Symbol.Complete .names [t] [nameOf t] := by
  intro c rest hrest hstop
  rw [names]
  refine Reply.ends_bind (expectName_eq hrest ht _) ?_
  rintro name next _ ⟨hn, hnext, hreports⟩
  have hnext' : next.rest = rest := hnext
  have hcomma : next.sees .comma = false := sees_of_stops (hnext' ▸ hstop) (List.mem_cons_self ..)
  simp only [hcomma, Bool.false_eq_true, if_false]
  exact ⟨hnext, hreports, congrArg (fun name ↦ [name]) hn⟩

theorem complete_anotherName {q : Token} {ns : List Name} (ht : t.kind = .identifier)
    (hcomma : q.kind = .comma) (hothers : Symbol.Complete .names w ns) :
    Symbol.Complete .names (t :: q :: w) (nameOf t :: ns) := by
  intro c rest hrest hstop
  rw [names]
  refine Reply.ends_bind (expectName_eq hrest ht _) ?_
  rintro name next _ ⟨hn, hnext, hreports⟩
  have hseen : next.sees .comma = true := by rw [sees_of_cons hnext, hcomma]; rfl
  simp only [hseen, if_true]
  refine Reply.ends_map (Reply.ends_inside ((hothers next.skip rest (rest_skip hnext) hstop).imp
    ?_ fun _ h ↦ h))
  rintro v last ⟨hlast, hreports', hv⟩
  subst hn
  exact ⟨hlast, hreports'.trans hreports, congrArg (List.cons (nameOf t)) hv⟩

theorem complete_noParameter : Symbol.Complete .parameters [] [] := by
  intro c rest r hr hrest
  have hseen : c.sees .rightParen = true := by rw [sees_of_cons hrest, hr]; exact decide_eq_true rfl
  unfold parameters
  simp only [hseen, dite_true]
  exact ⟨rest_skip hrest, rfl, rfl⟩

theorem complete_parameters {ns : List Name} (h : Symbol.Complete .names w ns)
    (hbegins : Symbol.First .names w) : Symbol.Complete .parameters w ns := by
  intro c rest r hr hrest
  obtain ⟨t, u, rfl, ht⟩ := hbegins
  have hseen : c.sees .rightParen = false := by rw [sees_of_cons hrest, ht]; rfl
  unfold parameters
  simp only [hseen, Bool.false_eq_true, dite_false]
  refine Reply.ends_bind (h c _ hrest (stops_cons (by rw [hr]; decide))) ?_
  rintro v next _ ⟨hnext, hreports, hv⟩
  refine Reply.ends_map (Reply.ends_inside ((expect_eq hnext hr _).imp ?_ fun _ h ↦ h))
  rintro _ last ⟨_, hlast, hreports'⟩
  exact ⟨hlast, hreports'.trans hreports, hv⟩

theorem complete_function {n l r : Token} {ns : List Name} {ss : List Stmt}
    (hname : n.kind = .identifier) (hleft : l.kind = .leftParen)
    (hparameters : Symbol.Complete .parameters w ns) (hright : r.kind = .rightParen)
    (hblock : Symbol.Complete .block w' ss) (hbegins : Symbol.First .block w') :
    Symbol.Complete .function (n :: l :: (w ++ r :: w')) ⟨nameOf n, ns, ss⟩ := by
  intro N kind c within rest hrest
  obtain ⟨b, u, rfl, hb⟩ := hbegins
  have hrest' : c.rest = n :: l :: (w ++ r :: b :: (u ++ rest)) := by
    rw [hrest]
    simp only [List.cons_append, List.append_assoc]
  unfold routine
  refine Reply.ends_bind (expectName_eq hrest' hname _) ?_
  rintro name c₁ _ ⟨hn, hc₁, hreports₁⟩
  refine Reply.ends_andThen (expect_eq hc₁ hleft _) ?_
  rintro _ c₂ _ _ ⟨_, hc₂, hreports₂⟩
  refine Reply.ends_andThen (hparameters c₂ _ r hright hc₂) ?_
  rintro ps c₃ _ _ ⟨hc₃, hreports₃, hps⟩
  refine Reply.ends_andThen (expect_eq hc₃ hb _) ?_
  rintro _ c₄ _ less ⟨_, hc₄, hreports₄⟩
  refine Reply.ends_map (Reply.ends_inside ((hblock b u rfl N c₄ _ rest hc₄).imp ?_ fun _ h ↦ h))
  rintro v c₅ ⟨hc₅, hreports₅, hv⟩
  subst hn
  refine ⟨hc₅, ?_, ?_⟩
  · rw [hreports₅, hreports₄, hreports₃, hreports₂, hreports₁]
  · change (⟨nameOf n, ps, Stmt.unnumberedAll v⟩ : Routine) = _
    rw [show ps = ns from hps, show Stmt.unnumberedAll v = ss from hv]

theorem complete_anotherFunction {r : Routine} {rs : List Routine}
    (h : Symbol.Complete .function w r) (hbegins : Symbol.First .function w)
    (hothers : Symbol.Complete .functions w' rs) :
    Symbol.Complete .functions (w ++ w') (r :: rs) := by
  intro n c within rest b hb hrest
  rw [List.append_assoc] at hrest
  obtain ⟨t, u, rfl, ht⟩ := hbegins
  have hseen : c.sees .rightBrace = false := by rw [sees_of_cons hrest, ht]; rfl
  have hsize : c.size ≠ 0 := by rw [Cursor.size, hrest]; exact Nat.succ_ne_zero _
  rw [methods]
  simp only [hseen, hsize, Bool.false_eq_true, or_self, if_false]
  refine Reply.ends_bind (h n .method c within _ hrest) ?_
  rintro v next shorter ⟨hnext, hreports, hv⟩
  refine Reply.ends_map (Reply.ends_inside ((hothers n next _ rest b hb hnext).imp ?_ fun _ h ↦ h))
  rintro vs last ⟨hlast, hreports', hvs⟩
  refine ⟨hlast, hreports'.trans hreports, ?_⟩
  change v.unnumbered :: Routine.unnumberedAll vs = r :: rs
  rw [show v.unnumbered = r from hv, show Routine.unnumberedAll vs = rs from hvs]

theorem complete_noFunction : Symbol.Complete .functions [] [] := by
  intro n c within rest b hb hrest
  have hseen : c.sees .rightBrace = true := by rw [sees_of_cons hrest, hb]; exact decide_eq_true rfl
  rw [methods]
  simp only [hseen, true_or, if_true]
  refine Reply.ends_map ((expect_eq hrest hb _).imp ?_ fun _ h ↦ h)
  rintro _ last ⟨_, hlast, hreports⟩
  exact ⟨hlast, hreports, rfl⟩

/-! ### Declarations -/

/-- A declaration that a keyword begins. -/
theorem gives_declarationWith {n : Nat} {s : Stmt} {within : c.size ≤ n} (hrest : c.rest = t :: w)
    (h : ∀ less, ∃ reply, declarationAfter? (rules n) t c.skip less = some reply ∧
      Gives c rest s reply) : Gives c rest s (declarationWith (rules n) c within) := by
  obtain ⟨reply, hreply, hgives⟩ := h (Cursor.skip_lt_of_cons hrest within)
  rw [declarationWith_cons hrest, hreply]
  exact Reply.ends_inside hgives

theorem gives_classBody {n : Nat} {l r : Token} {rs : List Routine} {name : Name}
    {superclass : Option Superclass} (hrest : c.rest = l :: (w ++ r :: rest))
    (hleft : l.kind = .leftBrace) (hmethods : Symbol.Complete .functions w rs)
    (hright : r.kind = .rightBrace) (less : c.size < n) :
    Gives c rest (.class_ name (superclass.map Superclass.unnumbered) rs)
      (classBody (rules n) name superclass c less) := by
  refine Reply.ends_bind (expect_eq hrest hleft _) ?_
  rintro _ next shorter ⟨_, hnext, hreports⟩
  refine Reply.ends_map (Reply.ends_inside ((hmethods n next _ rest r hright hnext).imp
    ?_ fun _ h ↦ h))
  rintro v last ⟨hlast, hreports', hv⟩
  exact ⟨hlast, hreports'.trans hreports, congrArg (Stmt.class_ name _) hv⟩

theorem complete_classDecl {k n l r : Token} {superclass : Option Superclass} {rs : List Routine}
    (hk : k.kind = .class_) (hname : n.kind = .identifier)
    (hheritage : Symbol.Complete .heritage w superclass) (hleft : l.kind = .leftBrace)
    (hmethods : Symbol.Complete .functions w' rs) (hright : r.kind = .rightBrace) :
    Symbol.Complete .declaration (k :: n :: (w ++ l :: (w' ++ [r])))
      (.class_ (nameOf n) superclass rs) := by
  intro N c within rest hrest _
  refine gives_declarationWith hrest fun less ↦
    ⟨_, by simp only [declarationAfter?, hk]; exact rfl, ?_⟩
  have hskip : c.skip.rest = n :: (w ++ l :: (w' ++ r :: rest)) := by
    refine (rest_skip hrest).trans ?_
    simp only [List.append_eq, List.cons_append, List.append_assoc, List.nil_append]
  unfold classDeclaration
  refine Reply.ends_bind (expectName_eq hskip hname _) ?_
  rintro name next _ ⟨hn, hnext, hreports⟩
  subst hn
  rcases hheritage with ⟨rfl, rfl⟩ | ⟨q, p, rfl, hq, hp, rfl⟩
  · have hless : next.sees .less = false := by rw [sees_of_cons hnext, hleft]; rfl
    simp only [hless, Bool.false_eq_true, if_false]
    refine Reply.ends_inside ((gives_classBody hnext hleft hmethods hright _).imp ?_ fun _ h ↦ h)
    rintro v last ⟨hlast, hreports', hv⟩
    exact ⟨hlast, hreports'.trans hreports, hv⟩
  · have hless : next.sees .less = true := by rw [sees_of_cons hnext, hq]; rfl
    simp only [hless, if_true]
    refine Reply.ends_andThen (expectName_eq (rest_skip hnext) hp _) ?_
    rintro parent last _ _ ⟨hparent, hlast, hreports'⟩
    subst hparent
    refine Reply.ends_inside ((gives_classBody (c := last.draw) hlast hleft hmethods hright _).imp
      ?_ fun _ h ↦ h)
    rintro v c' ⟨hc', hreports'', hv⟩
    exact ⟨hc', hreports''.trans (hreports'.trans hreports), hv⟩

theorem complete_funDecl {k : Token} {r : Routine} (hk : k.kind = .fun_)
    (h : Symbol.Complete .function w r) : Symbol.Complete .declaration (k :: w) (.function r) := by
  intro N c within rest hrest _
  refine gives_declarationWith hrest fun less ↦
    ⟨_, by simp only [declarationAfter?, hk]; exact rfl, ?_⟩
  refine Reply.ends_map ((h N .function c.skip _ rest (rest_skip hrest)).imp ?_ fun _ h ↦ h)
  rintro v last ⟨hlast, hreports, hv⟩
  exact ⟨hlast, hreports, congrArg Stmt.function hv⟩

theorem complete_varDeclaration {s : Stmt} (h : Symbol.Complete .varDecl w s)
    (hbegins : Symbol.First .varDecl w) : Symbol.Complete .declaration w s := by
  intro N c within rest hrest _
  obtain ⟨v, u, rfl, hv⟩ := hbegins
  exact gives_declarationWith hrest fun less ↦
    ⟨_, by simp only [declarationAfter?, hv], h v u rfl c.skip rest (rest_skip hrest)⟩

/-! ### Statements -/

/-- A statement that a keyword or a brace begins, read as such or as a declaration. -/
theorem gives_statementWith {n : Nat} {s : Stmt} {within : c.size ≤ n} (hrest : c.rest = t :: w)
    (h : ∀ less, ∃ reply, statementAfter? (rules n) t c.skip less = some reply ∧
      Gives c rest s reply) : Gives c rest s (statementWith (rules n) c within) := by
  obtain ⟨reply, hreply, hgives⟩ := h (Cursor.skip_lt_of_cons hrest within)
  rw [statementWith_cons hrest, hreply]
  exact Reply.ends_inside hgives

theorem rules_statement (n : Nat) (c : Cursor) (less : c.size < n) :
    (rules n).statement c less = statementWith (rules c.size) c c.le_self := by
  rw [rules]

theorem rules_block (n : Nat) (c : Cursor) (less : c.size < n) :
    (rules n).block c less = blockWith (rules c.size) c c.le_self := by
  rw [rules]

theorem gives_statement {isOpen : Bool} {s : Stmt} (h : Symbol.Complete (.statement isOpen) w s)
    {n : Nat} (hrest : c.rest = w ++ rest) (hstop : isOpen = true → Stops [.else_] rest)
    (less : c.size < n) : Gives c rest s ((rules n).statement c less) := by
  rw [rules_statement]
  exact h _ c _ rest hrest hstop

theorem statementAfter?_of_expression (ht : beginsExpression t.kind = true) {n : Nat}
    {rules : Rules n} {less : c.size < n} : statementAfter? rules t c less = none := by
  obtain ⟨kind, lexeme, line⟩ := t
  cases kind <;> first | rfl | cases ht

theorem complete_expression {s : Stmt} (h : Symbol.Complete .exprStmt w s)
    (hbegins : Symbol.First .exprStmt w) : Symbol.Complete (.statement false) w s := by
  intro n c within rest hrest _
  obtain ⟨t, u, rfl, ht⟩ := hbegins
  have hplain := h c rest hrest
  rw [statementWith_cons hrest, statementAfter?_of_expression ht]
  exact hplain

theorem complete_printStmt {k : Token} (hk : k.kind = .print)
    (h : ExprSymbol.Derives .expression w e) (ht : t.kind = .semicolon) :
    Symbol.Complete (.statement false) (k :: (w ++ [t])) (.print e) := by
  intro n c within rest hrest _
  refine gives_statementWith hrest fun less ↦
    ⟨_, by simp only [statementAfter?, hk]; exact rfl, ?_⟩
  have hskip : c.skip.rest = w ++ t :: rest := (rest_skip hrest).trans (List.append_assoc ..)
  have hvalue := gives_expressionUntil h (Or.inl ht) hskip .printEnd
  rw [ht] at hvalue
  refine Reply.ends_map (hvalue.imp ?_ fun _ h ↦ h)
  rintro v last ⟨hlast, hreports, hv⟩
  exact ⟨hlast, hreports, congrArg Stmt.print hv⟩

theorem complete_returnStmt {k : Token} {o : Option Expr} (hk : k.kind = .return_)
    (h : Symbol.Complete .optional w o) (ht : t.kind = .semicolon) :
    Symbol.Complete (.statement false) (k :: (w ++ [t])) (.return_ k.line o) := by
  intro n c within rest hrest _
  refine gives_statementWith hrest fun less ↦
    ⟨_, by simp only [statementAfter?, hk]; exact rfl, ?_⟩
  have hskip : c.skip.rest = w ++ t :: rest := (rest_skip hrest).trans (List.append_assoc ..)
  have hvalue := h c.skip rest t (Or.inl ht) hskip .returnEnd
  rw [ht] at hvalue
  refine Reply.ends_map (hvalue.imp ?_ fun _ h ↦ h)
  rintro v last ⟨hlast, hreports, hv⟩
  exact ⟨hlast, hreports, congrArg (Stmt.return_ k.line) hv⟩

theorem complete_blockStmt {ss : List Stmt} (h : Symbol.Complete .block w ss)
    (hbegins : Symbol.First .block w) : Symbol.Complete (.statement false) w (.block ss) := by
  intro n c within rest hrest _
  obtain ⟨l, u, rfl, hl⟩ := hbegins
  refine gives_statementWith hrest fun less ↦
    ⟨_, by simp only [statementAfter?, hl]; exact rfl, ?_⟩
  refine Reply.ends_map ((h l u rfl n c.skip less rest (rest_skip hrest)).imp ?_ fun _ h ↦ h)
  rintro v last ⟨hlast, hreports, hv⟩
  exact ⟨hlast, hreports, congrArg Stmt.block hv⟩

theorem complete_whileStmt {k l r : Token} {s : Stmt} {isOpen : Bool} (hk : k.kind = .while_)
    (hleft : l.kind = .leftParen) (htest : ExprSymbol.Derives .expression w e)
    (hright : r.kind = .rightParen) (hbody : Symbol.Complete (.statement isOpen) w' s) :
    Symbol.Complete (.statement isOpen) (k :: l :: (w ++ r :: w')) (.loop e s) := by
  intro n c within rest hrest hstop
  refine gives_statementWith hrest fun less ↦
    ⟨_, by simp only [statementAfter?, hk]; exact rfl, ?_⟩
  have hrest' : c.rest = k :: l :: (w ++ r :: (w' ++ rest)) := by
    rw [hrest]
    simp only [List.cons_append, List.append_assoc]
  refine Reply.ends_bind (gives_condition hrest' hleft htest hright _) ?_
  rintro v next _ ⟨hnext, hreports, hv⟩
  refine Reply.ends_map (Reply.ends_inside ((gives_statement hbody hnext hstop _).imp
    ?_ fun _ h ↦ h))
  rintro s' last ⟨hlast, hreports', hs⟩
  refine ⟨hlast, hreports'.trans hreports, ?_⟩
  change Stmt.loop v.unnumbered s'.unnumbered = _
  rw [show v.unnumbered = e from hv, show s'.unnumbered = s from hs]

theorem complete_ifThen {k l r : Token} {s : Stmt} {isOpen : Bool} (hk : k.kind = .if_)
    (hleft : l.kind = .leftParen) (htest : ExprSymbol.Derives .expression w e)
    (hright : r.kind = .rightParen) (hs : Symbol.Complete (.statement isOpen) w' s) :
    Symbol.Complete (.statement true) (k :: l :: (w ++ r :: w')) (.ifThen e s) := by
  intro n c within rest hrest hstop
  refine gives_statementWith hrest fun less ↦
    ⟨_, by simp only [statementAfter?, hk]; exact rfl, ?_⟩
  have hrest' : c.rest = k :: l :: (w ++ r :: (w' ++ rest)) := by
    rw [hrest]
    simp only [List.cons_append, List.append_assoc]
  refine Reply.ends_bind (gives_condition hrest' hleft htest hright _) ?_
  rintro v next _ ⟨hnext, hreports, hv⟩
  refine Reply.ends_andThen (gives_statement hs hnext (fun _ ↦ hstop rfl) _) ?_
  rintro s' last _ _ ⟨hlast, hreports', hs⟩
  have helse : last.sees .else_ = false :=
    sees_of_stops (hlast ▸ hstop rfl) (List.mem_cons_self ..)
  simp only [helse, Bool.false_eq_true, if_false]
  refine ⟨hlast, hreports'.trans hreports, ?_⟩
  change Stmt.ifThen v.unnumbered s'.unnumbered = _
  rw [show v.unnumbered = e from hv, show s'.unnumbered = s from hs]

theorem complete_ifElse {k l r j : Token} {w'' : List Token} {s s' : Stmt} {isOpen' : Bool}
    (hk : k.kind = .if_) (hleft : l.kind = .leftParen) (htest : ExprSymbol.Derives .expression w e)
    (hright : r.kind = .rightParen) (hs : Symbol.Complete (.statement false) w' s)
    (hj : j.kind = .else_) (hs' : Symbol.Complete (.statement isOpen') w'' s') :
    Symbol.Complete (.statement isOpen') (k :: l :: (w ++ r :: (w' ++ j :: w'')))
      (.ifElse e s s') := by
  intro n c within rest hrest hstop
  refine gives_statementWith hrest fun less ↦
    ⟨_, by simp only [statementAfter?, hk]; exact rfl, ?_⟩
  have hrest' : c.rest = k :: l :: (w ++ r :: (w' ++ j :: (w'' ++ rest))) := by
    rw [hrest]
    simp only [List.cons_append, List.append_assoc]
  refine Reply.ends_bind (gives_condition hrest' hleft htest hright _) ?_
  rintro v next _ ⟨hnext, hreports, hv⟩
  refine Reply.ends_andThen (gives_statement hs hnext (fun h ↦ nomatch h) _) ?_
  rintro t last _ _ ⟨hlast, hreports', ht⟩
  have helse : last.sees .else_ = true := by rw [sees_of_cons hlast, hj]; rfl
  simp only [helse, if_true]
  refine Reply.ends_map (Reply.ends_inside ((gives_statement hs' (rest_skip hlast) hstop _).imp
    ?_ fun _ h ↦ h))
  rintro t' c' ⟨hc', hreports'', ht'⟩
  refine ⟨hc', hreports''.trans (hreports'.trans hreports), ?_⟩
  change Stmt.ifElse v.unnumbered t.unnumbered t'.unnumbered = _
  rw [show v.unnumbered = e from hv, show t.unnumbered = s from ht,
    show t'.unnumbered = s' from ht']

theorem complete_firstVar {s : Stmt} (h : Symbol.Complete .varDecl w s)
    (hbegins : Symbol.First .varDecl w) : Symbol.Complete .initializer w (some s) := by
  intro c rest hrest
  obtain ⟨v, u, rfl, hv⟩ := hbegins
  have hsemicolon : c.sees .semicolon = false := by rw [sees_of_cons hrest, hv]; rfl
  have hvar : c.sees .var = true := by rw [sees_of_cons hrest, hv]; exact decide_eq_true rfl
  unfold forInitializer
  simp only [hsemicolon, hvar, Bool.false_eq_true, dite_false, dite_true]
  refine Reply.ends_map (Reply.ends_inside ((h v u rfl c.skip rest (rest_skip hrest)).imp
    ?_ fun _ h ↦ h))
  rintro s' last ⟨hlast, hreports, hs⟩
  exact ⟨hlast, hreports, congrArg some hs⟩

theorem complete_firstExpr {s : Stmt} (h : Symbol.Complete .exprStmt w s)
    (hbegins : Symbol.First .exprStmt w) : Symbol.Complete .initializer w (some s) := by
  intro c rest hrest
  obtain ⟨t, u, rfl, ht⟩ := hbegins
  have hnot (kind : Token.Kind) (hkind : beginsExpression kind = false) : c.sees kind = false := by
    rw [sees_of_cons hrest]
    exact decide_eq_false (ne_of_beginsExpression ht hkind)
  unfold forInitializer
  simp only [hnot .semicolon rfl, hnot .var rfl, Bool.false_eq_true, dite_false]
  refine Reply.ends_map ((h c rest hrest).imp ?_ fun _ h ↦ h)
  rintro s' last ⟨hlast, hreports, hs⟩
  exact ⟨hlast, hreports, congrArg some hs⟩

theorem complete_noFirst (ht : t.kind = .semicolon) : Symbol.Complete .initializer [t] none := by
  intro c rest hrest
  have hseen : c.sees .semicolon = true := by rw [sees_of_cons hrest, ht]; exact decide_eq_true rfl
  unfold forInitializer
  simp only [hseen, dite_true]
  exact ⟨rest_skip hrest, rfl, rfl⟩

theorem complete_forStmt {k l q r : Token} {w'' u : List Token} {first : Option Stmt}
    {test increment : Option Expr} {s : Stmt} {isOpen : Bool} (hk : k.kind = .for_)
    (hleft : l.kind = .leftParen) (hfirst : Symbol.Complete .initializer w first)
    (htest : Symbol.Complete .optional w' test) (hq : q.kind = .semicolon)
    (hincrement : Symbol.Complete .optional w'' increment) (hright : r.kind = .rightParen)
    (hbody : Symbol.Complete (.statement isOpen) u s) :
    Symbol.Complete (.statement isOpen) (k :: l :: (w ++ (w' ++ q :: (w'' ++ r :: u))))
      (forOf test increment s first) := by
  intro n c within rest hrest hstop
  refine gives_statementWith hrest fun less ↦
    ⟨_, by simp only [statementAfter?, hk]; exact rfl, ?_⟩
  have hskip : c.skip.rest = l :: (w ++ (w' ++ q :: (w'' ++ r :: (u ++ rest)))) := by
    refine (rest_skip hrest).trans ?_
    simp only [List.append_eq, List.cons_append, List.append_assoc]
  unfold forStatement
  refine Reply.ends_bind (expect_eq hskip hleft _) ?_
  rintro _ c₁ _ ⟨_, hc₁, hreports₁⟩
  refine Reply.ends_andThen (hfirst c₁ _ hc₁) ?_
  rintro first' c₂ _ _ ⟨hc₂, hreports₂, hfirst'⟩
  have htest' := htest c₂ _ q (Or.inl hq) hc₂ .loopConditionEnd
  rw [hq] at htest'
  refine Reply.ends_andThen htest' ?_
  rintro test' c₃ _ _ ⟨hc₃, hreports₃, htest⟩
  have hincrement' := hincrement c₃ _ r (Or.inr hright) hc₃ .forClosing
  rw [hright] at hincrement'
  refine Reply.ends_andThen hincrement' ?_
  rintro increment' c₄ _ _ ⟨hc₄, hreports₄, hincrement⟩
  refine Reply.ends_map (Reply.ends_inside ((gives_statement hbody hc₄ hstop _).imp
    ?_ fun _ h ↦ h))
  rintro s' c₅ ⟨hc₅, hreports₅, hs⟩
  refine ⟨hc₅, ?_, ?_⟩
  · rw [hreports₅, hreports₄, hreports₃, hreports₂, hreports₁]
    rfl
  · change (forLoop first' test' increment' s').unnumbered = _
    rw [unnumbered_forLoop, show first'.map Stmt.unnumbered = first from hfirst',
      show test'.map Expr.unnumbered = test from htest,
      show increment'.map Expr.unnumbered = increment from hincrement,
      show s'.unnumbered = s from hs]

/-! ### Blocks and programs -/

theorem declarationAfter?_of_statement (ht : t.kind ∉ declarationKinds) {n : Nat} {rules : Rules n}
    {less : c.size < n} : declarationAfter? rules t c less = none := by
  obtain ⟨kind, lexeme, line⟩ := t
  cases kind <;> first | rfl | exact absurd (by simp [declarationKinds]) ht

theorem complete_plain {isOpen : Bool} {s : Stmt} (h : Symbol.Complete (.statement isOpen) w s)
    (hbegins : Symbol.First (.statement isOpen) w) : Symbol.Complete .declaration w s := by
  intro n c within rest hrest hstop
  obtain ⟨t, u, rfl, ht⟩ := hbegins
  have hplain := h n c within rest hrest fun _ ↦ hstop
  rw [declarationWith_cons hrest, declarationAfter?_of_statement ht]
  exact hplain

theorem unnumberedAll_append (ss ss' : List Stmt) :
    Stmt.unnumberedAll (ss ++ ss') = Stmt.unnumberedAll ss ++ Stmt.unnumberedAll ss' := by
  induction ss with
  | nil => rfl
  | cons s ss ih =>
    rw [List.cons_append, Stmt.unnumberedAll, Stmt.unnumberedAll, ih, List.cons_append]

/-- There is nothing to recover from after a declaration that has been read. -/
theorem gives_recover {size : Nat} {r : Reply size Stmt} {s : Stmt} (pos : 0 < size)
    (h : Gives c rest s r) : (recover r pos).next.rest = rest ∧
      (recover r pos).next.reports = c.reports ∧
      Stmt.unnumberedAll (recover r pos).value.toList = [s] := by
  cases r with
  | done v next shorter =>
    obtain ⟨hrest, hreports, hv⟩ := h
    exact ⟨hrest, hreports, congrArg (fun s ↦ [s]) hv⟩
  | failed cause next notLonger => exact h.elim

theorem complete_nothing : Symbol.Complete .declarations [] [] := by
  refine ⟨fun n c within rest r hr hrest ↦ ?_, fun c hrest ↦ ?_⟩
  · have hseen : c.sees .rightBrace = true := by
      rw [sees_of_cons hrest, hr]
      exact decide_eq_true rfl
    rw [blockWith]
    simp only [hseen, true_or, dite_true]
    refine Reply.ends_map ((expect_eq hrest hr _).imp ?_ fun _ h ↦ h)
    rintro _ last ⟨_, hlast, hreports⟩
    exact ⟨hlast, hreports, rfl⟩
  · have hdone : declarations c = ([], c) := by
      rw [declarations, dif_pos (by rw [Cursor.size, hrest]; rfl)]
    rw [hdone]
    exact ⟨rfl, rfl⟩

theorem complete_another {s : Stmt} {ss : List Stmt} (hs : Symbol.Complete .declaration w s)
    (hbegins : Symbol.First .declaration w) (hss : Symbol.Complete .declarations w' ss)
    (hbegins' : Symbol.First .declarations w') :
    Symbol.Complete .declarations (w ++ w') (s :: ss) := by
  obtain ⟨t, u, rfl, ht⟩ := hbegins
  have hnext {rest : List Token} (hstop : Stops [.else_] rest) : Stops [.else_] (w' ++ rest) := by
    rcases hbegins' with rfl | ⟨t', u', rfl, ht'⟩
    · exact hstop
    · refine stops_cons fun hmem ↦ ht' ?_
      exact List.mem_cons_of_mem _ hmem
  have hall {value : Option Stmt} {later : List Stmt}
      (hvalue : Stmt.unnumberedAll value.toList = [s]) (hlater : Stmt.unnumberedAll later = ss) :
      Stmt.unnumberedAll (value.toList ++ later) = s :: ss := by
    rw [unnumberedAll_append, hvalue, hlater]
    rfl
  refine ⟨fun n c within rest r hr hrest ↦ ?_, fun c hrest ↦ ?_⟩
  · rw [List.append_assoc] at hrest
    have hseen : c.sees .rightBrace = false := by
      rw [sees_of_cons hrest]
      exact decide_eq_false fun heq ↦ ht (heq ▸ List.mem_cons_self ..)
    have hsize : c.size ≠ 0 := by rw [Cursor.size, hrest]; exact Nat.succ_ne_zero _
    have hfirst := hs n c within _ hrest (hnext (stops_cons (by rw [hr]; decide)))
    rw [blockWith]
    split
    next hstop =>
      rcases hstop with hstop | hstop
      · rw [hseen] at hstop
        cases hstop
      · exact absurd hstop hsize
    next hstop =>
      obtain ⟨hrest', hreports, hvalue⟩ := gives_recover (Cursor.size_pos hstop) hfirst
      refine Reply.ends_map (Reply.ends_inside ((hss.1 n _ _ rest r hr hrest').imp ?_ fun _ h ↦ h))
      rintro v last ⟨hlast, hreports', hv⟩
      exact ⟨hlast, hreports'.trans hreports, hall hvalue hv⟩
  · have hsize : c.size ≠ 0 := by rw [Cursor.size, hrest]; exact Nat.succ_ne_zero _
    have hend : Stops [.else_] ([] : List Token) := by rintro _ _ ⟨⟩
    have hfirst : Gives c w' s (declaration c) := by
      have hdeclaration := hs c.size c c.le_self _ hrest (by simpa using hnext hend)
      exact hdeclaration
    obtain ⟨hrest', hreports, hvalue⟩ := gives_recover (Nat.pos_of_ne_zero hsize) hfirst
    obtain ⟨hlater, hreports'⟩ := hss.2 _ hrest'
    rw [declarations, dif_neg hsize]
    exact ⟨hall hvalue hlater, hreports'.trans hreports⟩

theorem complete_block {l r : Token} {ss : List Stmt} (hss : Symbol.Complete .declarations w ss)
    (hright : r.kind = .rightBrace) : Symbol.Complete .block (l :: (w ++ [r])) ss := by
  intro t u heq n c less rest hrest
  cases heq
  rw [rules_block]
  exact hss.1 _ c _ rest r hright (hrest.trans (List.append_assoc ..))

end

/-- The words of every symbol are read, by a derivation in which each `else` is where the parser
takes it to be. -/
theorem Symbol.Derives.complete {α : Type} {S : Symbol α} {w : List Token} {a : α}
    (h : S.Derives true w a) : S.Complete w a := by
  induction h with
  | program body eof ih => trivial
  | nothing => exact complete_nothing
  | another first others ih ih' => exact complete_another ih first.first ih' others.first
  | classDecl class_ name heritage left methods_ right ih ih' =>
    exact complete_classDecl class_ name ih left ih' right
  | funDecl fun_ function ih => exact complete_funDecl fun_ ih
  | varDeclaration decl ih => exact complete_varDeclaration ih decl.first
  | plain statement ih => exact complete_plain ih statement.first
  | noHeritage => exact Or.inl ⟨rfl, rfl⟩
  | @extending l n less name => exact Or.inr ⟨l, n, rfl, less, name, rfl⟩
  | noFunction => exact complete_noFunction
  | anotherFunction first others ih ih' => exact complete_anotherFunction ih first.first ih'
  | function name left parameters right block ih ih' =>
    exact complete_function name left ih right ih' block.first
  | noParameter => exact complete_noParameter
  | parameters some_ ih => exact complete_parameters ih some_.first
  | oneName name => exact complete_oneName name
  | anotherName name comma others ih => exact complete_anotherName name comma ih
  | undefined var name semicolon => exact complete_undefined name semicolon
  | defined var name equal value semicolon => exact complete_defined name equal value semicolon
  | exprStmt value semicolon => exact complete_exprStmt value semicolon
  | expression statement ih => exact complete_expression ih statement.first
  | printStmt print value semicolon => exact complete_printStmt print value semicolon
  | returnStmt return_ value semicolon ih => exact complete_returnStmt return_ ih semicolon
  | blockStmt block ih => exact complete_blockStmt ih block.first
  | whileStmt while_ left test right body ih => exact complete_whileStmt while_ left test right ih
  | forStmt for_ left initializer test_ semicolon increment_ right body_ ih ih' ih'' ih₃ =>
    exact complete_forStmt for_ left ih ih' semicolon ih'' right ih₃
  | ifThen if_ left test right consequent ih => exact complete_ifThen if_ left test right ih
  | ifElse if_ left test right consequent closed else_ alternative ih ih' =>
    obtain rfl := closed rfl
    exact complete_ifElse if_ left test right ih else_ ih'
  | firstVar decl ih => exact complete_firstVar ih decl.first
  | firstExpr statement ih => exact complete_firstExpr ih statement.first
  | noFirst semicolon => exact complete_noFirst semicolon
  | block left body right ih => exact complete_block ih right
  | absent => exact complete_absent
  | present value => exact complete_present value

end Lox.Grammar
