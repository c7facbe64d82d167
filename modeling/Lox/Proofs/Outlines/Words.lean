import Lox.Proofs.Grammar.Trees
import Lox.Proofs.Outlines.Trees

/-!
Words that differ only in the lines of their tokens. The grammar does not look at lines: it derives
such words from the same symbols, and their trees are bare alike (`Symbol.Derives.reword`).
-/

set_option autoImplicit false

namespace Lox

/-! ### Trees of derivations -/

mutual

theorem Expr.outline_unnumbered : (e : Expr) → e.unnumbered.outline erased = e.outline erased
  | .literal _ | .var _ _ | .this _ _ | .super _ _ _ => rfl
  | .grouping e => congrArg Expr.grouping (Expr.outline_unnumbered e)
  | .unary op _ e => congrArg (Expr.unary op 0) (Expr.outline_unnumbered e)
  | .binary op _ l r =>
    congrArg₂ (Expr.binary op 0) (Expr.outline_unnumbered l) (Expr.outline_unnumbered r)
  | .logical op _ l r =>
    congrArg₂ (Expr.logical op 0) (Expr.outline_unnumbered l) (Expr.outline_unnumbered r)
  | .assign _ name e => congrArg (Expr.assign 0 name.outline) (Expr.outline_unnumbered e)
  | .call callee _ args =>
    congrArg₂ (Expr.call · 0) (Expr.outline_unnumbered callee) (Expr.outlineAll_unnumbered args)
  | .get e name => congrArg (Expr.get · name.outline) (Expr.outline_unnumbered e)
  | .set o name e =>
    congrArg₂ (Expr.set · name.outline) (Expr.outline_unnumbered o) (Expr.outline_unnumbered e)

theorem Expr.outlineAll_unnumbered : (es : List Expr) →
    Expr.outlineAll erased (Expr.unnumberedAll es) = Expr.outlineAll erased es
  | [] => rfl
  | e :: es => congrArg₂ List.cons (Expr.outline_unnumbered e) (Expr.outlineAll_unnumbered es)

end

theorem Expr.outlineOf_unnumbered (e : Option Expr) :
    (e.map Expr.unnumbered).map (Expr.outline erased) = e.map (Expr.outline erased) := by
  cases e with
  | none => rfl
  | some e => exact congrArg some (Expr.outline_unnumbered e)

theorem Superclass.outlineOf_unnumbered (s : Option Superclass) :
    (s.map Superclass.unnumbered).map (Superclass.outline erased) =
      s.map (Superclass.outline erased) := by
  cases s <;> rfl

mutual

theorem Stmt.outline_unnumbered : (s : Stmt) → s.unnumbered.outline erased = s.outline erased
  | .expression e => congrArg Stmt.expression (Expr.outline_unnumbered e)
  | .print e => congrArg Stmt.print (Expr.outline_unnumbered e)
  | .var name e => congrArg (Stmt.var name.outline) (Expr.outlineOf_unnumbered e)
  | .block body => congrArg Stmt.block (Stmt.outlineAll_unnumbered body)
  | .ifThen test s =>
    congrArg₂ Stmt.ifThen (Expr.outline_unnumbered test) (Stmt.outline_unnumbered s)
  | .ifElse test s t => by
    simp only [Stmt.unnumbered, Stmt.outline, Expr.outline_unnumbered, Stmt.outline_unnumbered s,
      Stmt.outline_unnumbered t]
  | .loop test s => congrArg₂ Stmt.loop (Expr.outline_unnumbered test) (Stmt.outline_unnumbered s)
  | .function r => congrArg Stmt.function (Routine.outline_unnumbered r)
  | .return_ _ e => congrArg (Stmt.return_ 0) (Expr.outlineOf_unnumbered e)
  | .class_ name s rs =>
    congrArg₂ (Stmt.class_ name.outline) (Superclass.outlineOf_unnumbered s)
      (Routine.outlineAll_unnumbered rs)

theorem Stmt.outlineAll_unnumbered : (ss : List Stmt) →
    Stmt.outlineAll erased (Stmt.unnumberedAll ss) = Stmt.outlineAll erased ss
  | [] => rfl
  | s :: ss => congrArg₂ List.cons (Stmt.outline_unnumbered s) (Stmt.outlineAll_unnumbered ss)

theorem Routine.outline_unnumbered : (r : Routine) → r.unnumbered.outline erased = r.outline erased
  | ⟨_, _, body⟩ => congrArg (Routine.mk _ _) (Stmt.outlineAll_unnumbered body)

theorem Routine.outlineAll_unnumbered : (rs : List Routine) →
    Routine.outlineAll erased (Routine.unnumberedAll rs) = Routine.outlineAll erased rs
  | [] => rfl
  | r :: rs =>
    congrArg₂ List.cons (Routine.outline_unnumbered r) (Routine.outlineAll_unnumbered rs)

end

/-! ### Words -/

/-- Tokens that differ at most in their lines. -/
structure Token.Same (t t' : Token) : Prop where
  kind : t.kind = t'.kind
  lexeme : t.lexeme = t'.lexeme

/-- Words that differ at most in the lines of their tokens. -/
abbrev SameWords (w w' : List Token) : Prop := List.Forall₂ Token.Same w w'

namespace SameWords

variable {t : Token} {w w' u : List Token}

theorem of_map (h : w.map (fun t ↦ (t.kind, t.lexeme)) = w'.map fun t ↦ (t.kind, t.lexeme)) :
    SameWords w w' := by
  rw [← List.forall₂_eq_eq_eq, List.forall₂_map_left_iff, List.forall₂_map_right_iff] at h
  exact h.imp fun _ _ ht ↦ ⟨congrArg Prod.fst ht, congrArg Prod.snd ht⟩

theorem eq_nil (h : SameWords [] u) : u = [] := by
  cases h
  rfl

theorem head (h : SameWords (t :: w) u) :
    ∃ t' w', u = t' :: w' ∧ t'.kind = t.kind ∧
      (Grammar.nameOf t).outline = (Grammar.nameOf t').outline ∧ SameWords w w' := by
  cases h with
  | cons ht hrest =>
    exact ⟨_, _, rfl, ht.kind.symm, congrArg (Name.mk · 0) ht.lexeme, hrest⟩

theorem split (h : SameWords (w ++ w') u) :
    ∃ v v', u = v ++ v' ∧ SameWords w v ∧ SameWords w' v' := by
  induction w generalizing u with
  | nil => exact ⟨[], u, rfl, .nil, h⟩
  | cons t w ih =>
    cases h with
    | cons ht hrest =>
      obtain ⟨v, v', rfl, hv, hv'⟩ := ih hrest
      exact ⟨_ :: v, v', rfl, .cons ht hv, hv'⟩

/-- A word of one token. -/
theorem only (h : SameWords [t] u) :
    ∃ t', u = [t'] ∧ t'.kind = t.kind ∧
      (Grammar.nameOf t).outline = (Grammar.nameOf t').outline := by
  obtain ⟨t', _, rfl, hkind, hname, hrest⟩ := h.head
  rw [hrest.eq_nil]
  exact ⟨t', rfl, hkind, hname⟩

/-- A word that a token closes. -/
theorem closed (h : SameWords (w ++ [t]) u) :
    ∃ v t', u = v ++ [t'] ∧ t'.kind = t.kind ∧ SameWords w v := by
  obtain ⟨v, _, rfl, hv, hlast⟩ := h.split
  obtain ⟨t', rfl, hkind, -⟩ := hlast.only
  exact ⟨v, t', rfl, hkind, hv⟩

/-- A word with its first part between parentheses, behind a keyword. -/
theorem clause {k l r : Token} (h : SameWords (k :: l :: (w ++ r :: w')) u) :
    ∃ k' l' r' v v', u = k' :: l' :: (v ++ r' :: v') ∧ k'.kind = k.kind ∧ l'.kind = l.kind ∧
      r'.kind = r.kind ∧ SameWords w v ∧ SameWords w' v' := by
  obtain ⟨k', _, rfl, hk, -, h⟩ := h.head
  obtain ⟨l', _, rfl, hl, -, h⟩ := h.head
  obtain ⟨v, _, rfl, hv, h⟩ := h.split
  obtain ⟨r', v', rfl, hr, -, hv'⟩ := h.head
  exact ⟨k', l', r', v, v', rfl, hk, hl, hr, hv, hv'⟩

theorem unended (h : SameWords w w') (hw : ∀ t ∈ w, t.kind ≠ .endOfInput) :
    ∀ t ∈ w', t.kind ≠ .endOfInput := by
  induction h with
  | nil => exact hw
  | cons ht _ ih =>
    intro t' ht'
    rcases List.mem_cons.1 ht' with rfl | hrest
    · exact ht.kind ▸ hw _ (List.mem_cons_self ..)
    · exact ih (fun t htail ↦ hw t (List.mem_cons_of_mem _ htail)) t' hrest

end SameWords

namespace Grammar

/-! ### Expressions -/

/-- The tree without lines and identities. -/
def ExprSymbol.bare : {α : Type} → ExprSymbol α → α → α
  | _, .expression, e => e.outline erased
  | _, .level _, e => e.outline erased
  | _, .further _ _, e => e.outline erased
  | _, .unary, e => e.outline erased
  | _, .call, e => e.outline erased
  | _, .suffixes _, e => e.outline erased
  | _, .arguments, es => Expr.outlineAll erased es
  | _, .expressions, es => Expr.outlineAll erased es
  | _, .primary, e => e.outline erased

/-- Words like this one have trees like this one. What stands on the left of a repetition may be
told apart by lines and identities, too. -/
def ExprSymbol.Rewords : {α : Type} → ExprSymbol α → List Token → α → Prop
  | _, .further k l, w, v => ∀ w' l', SameWords w w' → l.outline erased = l'.outline erased →
    ∃ v', Derives (.further k l') w' v' ∧ v.outline erased = v'.outline erased
  | _, .suffixes e, w, v => ∀ w' e', SameWords w w' → e.outline erased = e'.outline erased →
    ∃ v', Derives (.suffixes e') w' v' ∧ v.outline erased = v'.outline erased
  | _, S, w, v => ∀ w', SameWords w w' → ∃ v', Derives S w' v' ∧ S.bare v = S.bare v'

theorem ExprSymbol.Rewords.operand {k : Level} {w w' : List Token} {e : Expr}
    (h : Rewords k.operand w e) (hw : SameWords w w') :
    ∃ e', Derives k.operand w' e' ∧ e.outline erased = e'.outline erased := by
  cases k <;> exact h w' hw

theorem Level.operators_outline {k : Level} {kind : Token.Kind} {join : Nat → Expr → Expr → Expr}
    (hjoin : (kind, join) ∈ k.operators) (ρ : NodeId → NodeId) (line : Nat) (l r : Expr) :
    (join line l r).outline ρ = join 0 (l.outline ρ) (r.outline ρ) := by
  obtain ⟨op, rfl⟩ | ⟨op, rfl⟩ := operators_cases hjoin <;> rfl

theorem ExprSymbol.Derives.rewords {α : Type} {S : ExprSymbol α} {w : List Token} {v : α}
    (h : Derives S w v) : Rewords S w v := by
  induction h with
  | assign name equal _ ih =>
    intro w' hw
    obtain ⟨n, _, rfl, hn, hname, hw⟩ := hw.head
    obtain ⟨q, _, rfl, hq, -, hw⟩ := hw.head
    obtain ⟨e, he, hbare⟩ := ih _ hw
    exact ⟨_, .assign (hn.trans name) (hq.trans equal) he, by
      simp only [bare, Expr.outline, hname] at hbare ⊢; rw [hbare]⟩
  | set _ dot name equal _ ih ih' =>
    intro w' hw
    obtain ⟨_, _, rfl, hobject, hw⟩ := hw.split
    obtain ⟨d, _, rfl, hd, -, hw⟩ := hw.head
    obtain ⟨n, _, rfl, hn, hname, hw⟩ := hw.head
    obtain ⟨q, _, rfl, hq, -, hw⟩ := hw.head
    obtain ⟨o, ho, hbare⟩ := ih _ hobject
    obtain ⟨e, he, hbare'⟩ := ih' _ hw
    exact ⟨_, .set ho (hd.trans dot) (hn.trans name) (hq.trans equal) he, by
      simp only [bare, Expr.outline, hname] at hbare hbare' ⊢; rw [hbare, hbare']⟩
  | simple _ ih =>
    intro w' hw
    obtain ⟨e, he, hbare⟩ := ih _ hw
    exact ⟨e, .simple he, hbare⟩
  | level _ _ ih ih' =>
    intro w' hw
    obtain ⟨_, _, rfl, hfirst, hothers⟩ := hw.split
    obtain ⟨l, hl, hbare⟩ := ih.operand hfirst
    obtain ⟨e, he, hbare'⟩ := ih' _ l hothers hbare
    exact ⟨e, .level hl he, hbare'⟩
  | lastOperand =>
    intro w' l' hw hl
    rw [hw.eq_nil]
    exact ⟨l', .lastOperand, hl⟩
  | @operator k l t w w' r e join operator _ _ ih ih' =>
    intro u l' hw hl
    obtain ⟨t', _, rfl, ht, -, hw⟩ := hw.head
    obtain ⟨_, _, rfl, hright, hothers⟩ := hw.split
    obtain ⟨r', hr, hbare⟩ := ih.operand hright
    obtain ⟨e', he, hbare'⟩ := ih' _ (join t'.line l' r') hothers (by
      rw [Level.operators_outline operator, Level.operators_outline operator, hl, hbare])
    exact ⟨e', .operator (ht ▸ operator) hr he, hbare'⟩
  | sign sign _ ih =>
    intro w' hw
    obtain ⟨t, _, rfl, ht, -, hw⟩ := hw.head
    obtain ⟨e, he, hbare⟩ := ih _ hw
    exact ⟨_, .sign (ht ▸ sign) he, congrArg (Expr.unary _ 0) hbare⟩
  | unsigned _ ih =>
    intro w' hw
    obtain ⟨e, he, hbare⟩ := ih _ hw
    exact ⟨e, .unsigned he, hbare⟩
  | call _ _ ih ih' =>
    intro w' hw
    obtain ⟨_, _, rfl, hfirst, hothers⟩ := hw.split
    obtain ⟨e, he, hbare⟩ := ih _ hfirst
    obtain ⟨e', he', hbare'⟩ := ih' _ e hothers hbare
    exact ⟨e', .call he he', hbare'⟩
  | lastSuffix =>
    intro w' e' hw he
    rw [hw.eq_nil]
    exact ⟨e', .lastSuffix, he⟩
  | application left _ right _ ih ih' =>
    intro w' e' hw he
    obtain ⟨l, _, rfl, hl, -, hw⟩ := hw.head
    obtain ⟨_, _, rfl, hargs, hw⟩ := hw.split
    obtain ⟨r, _, rfl, hr, -, hw⟩ := hw.head
    obtain ⟨es, hes, hbare⟩ := ih _ hargs
    obtain ⟨v, hv, hbare'⟩ := ih' _ (.call e' r.line es) hw (congrArg₂ (Expr.call · 0) he hbare)
    exact ⟨v, .application (hl.trans left) hes (hr.trans right) hv, hbare'⟩
  | property dot name _ ih =>
    intro w' e' hw he
    obtain ⟨d, _, rfl, hd, -, hw⟩ := hw.head
    obtain ⟨n, _, rfl, hn, hname, hw⟩ := hw.head
    obtain ⟨v, hv, hbare⟩ := ih _ (.get e' (nameOf n)) hw (congrArg₂ Expr.get he hname)
    exact ⟨v, .property (hd.trans dot) (hn.trans name) hv, hbare⟩
  | noArgument =>
    intro w' hw
    rw [hw.eq_nil]
    exact ⟨[], .noArgument, rfl⟩
  | arguments _ ih =>
    intro w' hw
    obtain ⟨es, hes, hbare⟩ := ih _ hw
    exact ⟨es, .arguments hes, hbare⟩
  | oneExpression _ ih =>
    intro w' hw
    obtain ⟨e, he, hbare⟩ := ih _ hw
    exact ⟨[e], .oneExpression he, congrArg (fun e ↦ [e]) hbare⟩
  | anotherExpression _ comma _ ih ih' =>
    intro w' hw
    obtain ⟨_, _, rfl, hfirst, hw⟩ := hw.split
    obtain ⟨c, _, rfl, hc, -, hw⟩ := hw.head
    obtain ⟨e, he, hbare⟩ := ih _ hfirst
    obtain ⟨es, hes, hbare'⟩ := ih' _ hw
    exact ⟨e :: es, .anotherExpression he (hc.trans comma) hes, congrArg₂ List.cons hbare hbare'⟩
  | literal literal =>
    intro w' hw
    obtain ⟨t, rfl, ht, -⟩ := hw.only
    exact ⟨_, .literal (ht ▸ literal), rfl⟩
  | this this =>
    intro w' hw
    obtain ⟨t, rfl, ht, -⟩ := hw.only
    exact ⟨_, .this (ht.trans this), rfl⟩
  | named name =>
    intro w' hw
    obtain ⟨n, rfl, hn, hname⟩ := hw.only
    exact ⟨_, .named (hn.trans name), congrArg (Expr.var 0) hname⟩
  | grouping left _ right ih =>
    intro w' hw
    obtain ⟨l, _, rfl, hl, -, hw⟩ := hw.head
    obtain ⟨_, r, rfl, hr, hinner⟩ := hw.closed
    obtain ⟨e, he, hbare⟩ := ih _ hinner
    exact ⟨_, .grouping (hl.trans left) he (hr.trans right), congrArg Expr.grouping hbare⟩
  | super super dot name =>
    intro w' hw
    obtain ⟨k, _, rfl, hk, -, hw⟩ := hw.head
    obtain ⟨d, _, rfl, hd, -, hw⟩ := hw.head
    obtain ⟨n, rfl, hn, hname⟩ := hw.only
    exact ⟨_, .super (hk.trans super) (hd.trans dot) (hn.trans name),
      congrArg (Expr.super 0 0) hname⟩

theorem ExprSymbol.Derives.reword {w w' : List Token} {e : Expr} (h : Derives .expression w e)
    (hw : SameWords w w') :
    ∃ e', Derives .expression w' e' ∧ e.outline erased = e'.outline erased :=
  h.rewords w' hw

/-! ### Statements -/

def Symbol.bare : {α : Type} → Symbol α → α → α
  | _, .program, ss => Stmt.outlineAll erased ss
  | _, .declarations, ss => Stmt.outlineAll erased ss
  | _, .declaration, s => s.outline erased
  | _, .heritage, s => s.map (Superclass.outline erased)
  | _, .functions, rs => Routine.outlineAll erased rs
  | _, .function, r => r.outline erased
  | _, .parameters, ns => ns.map Name.outline
  | _, .names, ns => ns.map Name.outline
  | _, .varDecl, s => s.outline erased
  | _, .statement _, s => s.outline erased
  | _, .exprStmt, s => s.outline erased
  | _, .initializer, s => s.map (Stmt.outline erased)
  | _, .block, ss => Stmt.outlineAll erased ss
  | _, .optional, e => e.map (Expr.outline erased)

theorem forOf_outline (ρ : NodeId → NodeId) (test increment : Option Expr) (body : Stmt)
    (first : Option Stmt) :
    (forOf test increment body first).outline ρ =
      forOf (test.map (Expr.outline ρ)) (increment.map (Expr.outline ρ)) (body.outline ρ)
        (first.map (Stmt.outline ρ)) := by
  cases test <;> cases increment <;> cases first <;> rfl

/-- Words that differ only in lines are derived from the same symbols, with trees that are bare
alike. -/
theorem Symbol.Derives.reword {nearest : Bool} {α : Type} {S : Symbol α} {w w' : List Token} {v : α}
    (h : Derives nearest S w v) (hw : SameWords w w') :
    ∃ v', Derives nearest S w' v' ∧ S.bare v = S.bare v' := by
  induction h generalizing w' with
  | program _ eof ih =>
    obtain ⟨_, t, rfl, ht, hbody⟩ := hw.closed
    obtain ⟨ss, hss, hbare⟩ := ih hbody
    exact ⟨ss, .program hss (ht.trans eof), hbare⟩
  | nothing =>
    rw [hw.eq_nil]
    exact ⟨[], .nothing, rfl⟩
  | another _ _ ih ih' =>
    obtain ⟨_, _, rfl, hfirst, hothers⟩ := hw.split
    obtain ⟨s, hs, hbare⟩ := ih hfirst
    obtain ⟨ss, hss, hbare'⟩ := ih' hothers
    exact ⟨s :: ss, .another hs hss, congrArg₂ List.cons hbare hbare'⟩
  | classDecl class_ name _ left _ right ih ih' =>
    obtain ⟨c, _, rfl, hc, -, hw⟩ := hw.head
    obtain ⟨n, _, rfl, hn, hname, hw⟩ := hw.head
    obtain ⟨_, _, rfl, hheritage, hw⟩ := hw.split
    obtain ⟨l, _, rfl, hl, -, hw⟩ := hw.head
    obtain ⟨_, r, rfl, hr, hmethods⟩ := hw.closed
    obtain ⟨s, hs, hbare⟩ := ih hheritage
    obtain ⟨rs, hrs, hbare'⟩ := ih' hmethods
    refine ⟨_, .classDecl (hc.trans class_) (hn.trans name) hs (hl.trans left) hrs
      (hr.trans right), ?_⟩
    simp only [bare, Stmt.outline, hname] at hbare hbare' ⊢
    rw [hbare, hbare']
  | funDecl fun_ _ ih =>
    obtain ⟨f, _, rfl, hf, -, hw⟩ := hw.head
    obtain ⟨r, hr, hbare⟩ := ih hw
    exact ⟨_, .funDecl (hf.trans fun_) hr, congrArg Stmt.function hbare⟩
  | varDeclaration _ ih =>
    obtain ⟨s, hs, hbare⟩ := ih hw
    exact ⟨s, .varDeclaration hs, hbare⟩
  | plain _ ih =>
    obtain ⟨s, hs, hbare⟩ := ih hw
    exact ⟨s, .plain hs, hbare⟩
  | noHeritage =>
    rw [hw.eq_nil]
    exact ⟨none, .noHeritage, rfl⟩
  | extending less name =>
    obtain ⟨l, _, rfl, hl, -, hw⟩ := hw.head
    obtain ⟨n, rfl, hn, hname⟩ := hw.only
    exact ⟨_, .extending (hl.trans less) (hn.trans name),
      congrArg (fun name ↦ some (Superclass.mk 0 name)) hname⟩
  | noFunction =>
    rw [hw.eq_nil]
    exact ⟨[], .noFunction, rfl⟩
  | anotherFunction _ _ ih ih' =>
    obtain ⟨_, _, rfl, hfirst, hothers⟩ := hw.split
    obtain ⟨r, hr, hbare⟩ := ih hfirst
    obtain ⟨rs, hrs, hbare'⟩ := ih' hothers
    exact ⟨r :: rs, .anotherFunction hr hrs, congrArg₂ List.cons hbare hbare'⟩
  | function name left _ right _ ih ih' =>
    obtain ⟨n, _, rfl, hn, hname, hw⟩ := hw.head
    obtain ⟨l, _, rfl, hl, -, hw⟩ := hw.head
    obtain ⟨_, _, rfl, hparameters, hw⟩ := hw.split
    obtain ⟨r, _, rfl, hr, -, hbody⟩ := hw.head
    obtain ⟨names, hnames, hbare⟩ := ih hparameters
    obtain ⟨body, hblock, hbare'⟩ := ih' hbody
    refine ⟨_, .function (hn.trans name) (hl.trans left) hnames (hr.trans right) hblock, ?_⟩
    simp only [bare, Routine.outline, hname] at hbare hbare' ⊢
    rw [hbare, hbare']
  | noParameter =>
    rw [hw.eq_nil]
    exact ⟨[], .noParameter, rfl⟩
  | parameters _ ih =>
    obtain ⟨names, hnames, hbare⟩ := ih hw
    exact ⟨names, .parameters hnames, hbare⟩
  | oneName name =>
    obtain ⟨n, rfl, hn, hname⟩ := hw.only
    exact ⟨_, .oneName (hn.trans name), congrArg (fun name ↦ [name]) hname⟩
  | anotherName name comma _ ih =>
    obtain ⟨n, _, rfl, hn, hname, hw⟩ := hw.head
    obtain ⟨c, _, rfl, hc, -, hw⟩ := hw.head
    obtain ⟨names, hnames, hbare⟩ := ih hw
    exact ⟨_, .anotherName (hn.trans name) (hc.trans comma) hnames,
      congrArg₂ List.cons hname hbare⟩
  | undefined var name semicolon =>
    obtain ⟨v, _, rfl, hv, -, hw⟩ := hw.head
    obtain ⟨n, _, rfl, hn, hname, hw⟩ := hw.head
    obtain ⟨t, rfl, ht, -⟩ := hw.only
    exact ⟨_, .undefined (hv.trans var) (hn.trans name) (ht.trans semicolon),
      congrArg (Stmt.var · none) hname⟩
  | defined var name equal value semicolon =>
    obtain ⟨v, _, rfl, hv, -, hw⟩ := hw.head
    obtain ⟨n, _, rfl, hn, hname, hw⟩ := hw.head
    obtain ⟨q, _, rfl, hq, -, hw⟩ := hw.head
    obtain ⟨_, t, rfl, ht, hvalue⟩ := hw.closed
    obtain ⟨e, he, hbare⟩ := value.reword hvalue
    exact ⟨_, .defined (hv.trans var) (hn.trans name) (hq.trans equal) he (ht.trans semicolon),
      congrArg₂ (fun name e ↦ Stmt.var name (some e)) hname hbare⟩
  | exprStmt value semicolon =>
    obtain ⟨_, t, rfl, ht, hvalue⟩ := hw.closed
    obtain ⟨e, he, hbare⟩ := value.reword hvalue
    exact ⟨_, .exprStmt he (ht.trans semicolon), congrArg Stmt.expression hbare⟩
  | expression _ ih =>
    obtain ⟨s, hs, hbare⟩ := ih hw
    exact ⟨s, .expression hs, hbare⟩
  | printStmt print value semicolon =>
    obtain ⟨p, _, rfl, hp, -, hw⟩ := hw.head
    obtain ⟨_, t, rfl, ht, hvalue⟩ := hw.closed
    obtain ⟨e, he, hbare⟩ := value.reword hvalue
    exact ⟨_, .printStmt (hp.trans print) he (ht.trans semicolon), congrArg Stmt.print hbare⟩
  | returnStmt return_ _ semicolon ih =>
    obtain ⟨k, _, rfl, hk, -, hw⟩ := hw.head
    obtain ⟨_, t, rfl, ht, hvalue⟩ := hw.closed
    obtain ⟨e, he, hbare⟩ := ih hvalue
    exact ⟨_, .returnStmt (hk.trans return_) he (ht.trans semicolon),
      congrArg (Stmt.return_ 0) hbare⟩
  | blockStmt _ ih =>
    obtain ⟨ss, hss, hbare⟩ := ih hw
    exact ⟨_, .blockStmt hss, congrArg Stmt.block hbare⟩
  | whileStmt while_ left test right _ ih =>
    obtain ⟨k, l, r, _, _, rfl, hk, hl, hr, htest, hbody⟩ := hw.clause
    obtain ⟨e, he, hbare⟩ := test.reword htest
    obtain ⟨s, hs, hbare'⟩ := ih hbody
    exact ⟨_, .whileStmt (hk.trans while_) (hl.trans left) he (hr.trans right) hs,
      congrArg₂ Stmt.loop hbare hbare'⟩
  | forStmt for_ left _ _ semicolon _ right _ ih ih' ih'' ih₃ =>
    obtain ⟨k, _, rfl, hk, -, hw⟩ := hw.head
    obtain ⟨l, _, rfl, hl, -, hw⟩ := hw.head
    obtain ⟨_, _, rfl, hinitializer, hw⟩ := hw.split
    obtain ⟨_, _, rfl, htest, hw⟩ := hw.split
    obtain ⟨t, _, rfl, ht, -, hw⟩ := hw.head
    obtain ⟨_, _, rfl, hincrement, hw⟩ := hw.split
    obtain ⟨r, _, rfl, hr, -, hbody⟩ := hw.head
    obtain ⟨first, hfirst, hbare⟩ := ih hinitializer
    obtain ⟨test, htest, hbare'⟩ := ih' htest
    obtain ⟨increment, hincrement, hbare''⟩ := ih'' hincrement
    obtain ⟨body, hbody, hbare₃⟩ := ih₃ hbody
    refine ⟨_, .forStmt (hk.trans for_) (hl.trans left) hfirst htest (ht.trans semicolon)
      hincrement (hr.trans right) hbody, ?_⟩
    simp only [bare, forOf_outline] at hbare hbare' hbare'' hbare₃ ⊢
    rw [hbare, hbare', hbare'', hbare₃]
  | ifThen if_ left test right _ ih =>
    obtain ⟨k, l, r, _, _, rfl, hk, hl, hr, htest, hbody⟩ := hw.clause
    obtain ⟨e, he, hbare⟩ := test.reword htest
    obtain ⟨s, hs, hbare'⟩ := ih hbody
    exact ⟨_, .ifThen (hk.trans if_) (hl.trans left) he (hr.trans right) hs,
      congrArg₂ Stmt.ifThen hbare hbare'⟩
  | ifElse if_ left test right _ closed else_ _ ih ih' =>
    obtain ⟨k, l, r, _, _, rfl, hk, hl, hr, htest, hw⟩ := hw.clause
    obtain ⟨_, _, rfl, hconsequent, hw⟩ := hw.split
    obtain ⟨j, _, rfl, hj, -, halternative⟩ := hw.head
    obtain ⟨e, he, hbare⟩ := test.reword htest
    obtain ⟨s, hs, hbare'⟩ := ih hconsequent
    obtain ⟨s', hs', hbare''⟩ := ih' halternative
    refine ⟨_, .ifElse (hk.trans if_) (hl.trans left) he (hr.trans right) hs closed
      (hj.trans else_) hs', ?_⟩
    simp only [bare, Stmt.outline] at hbare hbare' hbare'' ⊢
    rw [hbare, hbare', hbare'']
  | firstVar _ ih =>
    obtain ⟨s, hs, hbare⟩ := ih hw
    exact ⟨some s, .firstVar hs, congrArg some hbare⟩
  | firstExpr _ ih =>
    obtain ⟨s, hs, hbare⟩ := ih hw
    exact ⟨some s, .firstExpr hs, congrArg some hbare⟩
  | noFirst semicolon =>
    obtain ⟨t, rfl, ht, -⟩ := hw.only
    exact ⟨none, .noFirst (ht.trans semicolon), rfl⟩
  | block left _ right ih =>
    obtain ⟨l, _, rfl, hl, -, hw⟩ := hw.head
    obtain ⟨_, r, rfl, hr, hbody⟩ := hw.closed
    obtain ⟨ss, hss, hbare⟩ := ih hbody
    exact ⟨ss, .block (hl.trans left) hss (hr.trans right), hbare⟩
  | absent =>
    rw [hw.eq_nil]
    exact ⟨none, .absent, rfl⟩
  | present value =>
    obtain ⟨e, he, hbare⟩ := value.reword hw
    exact ⟨some e, .present he, congrArg some hbare⟩

end Grammar

end Lox
