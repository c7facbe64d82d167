import Lox.Proofs.Grammar.Lookahead
import Lox.Proofs.Grammar.Stretches

/-!
What the rules for expressions answer has a derivation: each rule does if the rule for whole
expressions does on shorter texts, and so they all do.
-/

set_option autoImplicit false

namespace Lox.Grammar

open Lox.Grammar.Tree (Regular)

/-! ### Levels -/

/-- How the rules join operands at a level. -/
def Level.joiner : Level → Joiner
  | .disjunction => disjunctionJoiner
  | .conjunction => conjunctionJoiner
  | .equality => equalityJoiner
  | .comparison => comparisonJoiner
  | .term => termJoiner
  | .factor => factorJoiner

/-- Tokens that join are the operators of the level. -/
theorem Level.joiner_iff (k : Level) (t : Token) (f : Expr → Expr → Expr) :
    k.joiner t = some f ↔ ∃ join, (t.kind, join) ∈ k.operators ∧ f = join t.line := by
  obtain ⟨kind, lexeme, line⟩ := t
  cases k <;> cases kind <;>
    simp [joiner, operators, disjunctionJoiner, conjunctionJoiner, equalityJoiner,
      comparisonJoiner, termJoiner, factorJoiner, eq_comm]

theorem unaryOp?_iff (t : Token) (op : UnaryOp) :
    unaryOp? t = some op ↔ (t.kind, op) ∈ signs := by
  obtain ⟨kind, lexeme, line⟩ := t
  cases kind <;> simp [unaryOp?, signs, eq_comm]

/-! ### Soundness -/

theorem ends_after {α : Type} {n : Nat} {good : α → Cursor → Prop} {r : Reply n α} {c m : Cursor}
    (hstuck : Stuck c m) (h : r.Ends good (Stuck m)) : r.Ends good (Stuck c) :=
  h.imp (fun _ _ hgood ↦ hgood) fun _ hm ↦ hstuck.trans hm

section

variable {n : Nat} {expression : Below n Expr}
  (hexpression : ∀ c less, Sound (ExprSymbol.Derives .expression) c (expression c less))

include hexpression

theorem sound_expressions (N : Nat) (c : Cursor) (less : c.size < n) (hN : c.size = N) :
    Sound (ExprSymbol.Derives .expressions) c (expressions expression c less) := by
  induction N using Nat.strongRecOn generalizing c with
  | ind N ih =>
    rw [expressions]
    refine sound_bind (hexpression c less) ?_
    rintro first next shorter ⟨w, hfirst⟩
    split
    next hcomma =>
      obtain ⟨t, ht, hrest⟩ := Cursor.sees_iff.1 hcomma
      have hskip := Parsed.token hrest
      refine ends_after hskip.stuck (sound_last
        (ih _ (hN ▸ Cursor.skip_lt_size shorter) next.skip _ rfl) ?_)
      rintro others last ⟨w', hothers⟩
      exact ⟨_, (hfirst.trans (hskip.trans hothers)).imp (List.Subperm.refl _)
        (fun h ↦ .anotherExpression h.1 ht h.2.2) fun h ↦ regular_exprs h.1 h.2.2⟩
    next =>
      refine ⟨_, hfirst.imp ?_ (fun hvalue ↦ .oneExpression hvalue)
        fun hvalue ↦ regular_exprs hvalue fun e he ↦ nomatch he⟩
      change (first.ids ++ []).Subperm first.ids
      rw [List.append_nil]

theorem sound_arguments (c : Cursor) (less : c.size < n) :
    (arguments expression c less).Ends (fun a c' ↦ ∃ w r, Parsed c (w ++ [r]) c' (Tree.ids a.1)
      (ExprSymbol.Derives .arguments w (Tree.unnumbered a.1)) (Regular a.1) ∧
        r.kind = .rightParen ∧ r.line = a.2) (Stuck c) := by
  unfold arguments
  split
  next hnone =>
    refine Reply.ends_map (ends_expect (fun t _ hrest hkind ↦ ?_) _)
    exact ⟨[], t, (Parsed.token hrest).imp (List.Subperm.refl _) (fun _ ↦ .noArgument)
      fun _ e he ↦ (nomatch he), hkind, rfl⟩
  next =>
    refine sound_bind (sound_expressions hexpression _ c less rfl) ?_
    rintro es next shorter ⟨w, hes⟩
    refine Reply.ends_map (Reply.ends_inside (ends_expect (fun t _ hrest hkind ↦ ?_) _))
    refine ⟨w, t, (hes.trans (Parsed.token hrest)).imp ?_ (fun h ↦ .arguments h.1) (fun h ↦ h.1),
      hkind, rfl⟩
    rw [List.append_nil]

omit hexpression in
theorem sound_superAccess {c : Cursor} {t : Token} {rest : List Token} (hrest : c.rest = t :: rest)
    (hkind : t.kind = .super) :
    (superAccess t.line c.skip).Ends (Reads (ExprSymbol.Derives .primary) c) (Stuck c) := by
  have hskip := Parsed.token hrest
  refine ends_after hskip.stuck (sound_bind (sound_expect c.skip .dot _) ?_)
  rintro d next _ ⟨w, hd⟩
  refine sound_andThen (sound_expectName next _) ?_
  rintro method after _ _ ⟨w', hmethod⟩
  refine ⟨_, (hskip.trans (hd.trans (hmethod.trans (Parsed.draw after)))).imp (List.Subperm.refl _)
    ?_ fun _ ↦ regular_super⟩
  rintro ⟨_, ⟨hw, hdot⟩, ⟨m, hw', hm, hname⟩, _⟩
  rw [hw, hw']
  have hmethod' : method = nameOf m := hname
  rw [hmethod']
  exact .super hkind hdot hm

theorem sound_grouping {c : Cursor} {t : Token} {rest : List Token} (hrest : c.rest = t :: rest)
    (hkind : t.kind = .leftParen) (less : c.skip.size < n) :
    (grouping expression c.skip less).Ends (Reads (ExprSymbol.Derives .primary) c) (Stuck c) := by
  have hskip := Parsed.token hrest
  refine ends_after hskip.stuck (sound_bind (hexpression c.skip less) ?_)
  rintro e next _ ⟨w, he⟩
  refine sound_last (sound_expect next .rightParen _) ?_
  rintro r last ⟨w', hr⟩
  refine ⟨_, (hskip.trans (he.trans hr)).imp ?_ ?_ fun h ↦ regular_grouping h.2.1⟩
  · exact (List.sublist_append_left _ _).subperm
  · rintro ⟨_, hinner, hw', hright⟩
    rw [hw']
    exact .grouping hkind hinner hright

theorem sound_primary (c : Cursor) (within : c.size ≤ n) :
    Sound (ExprSymbol.Derives .primary) c (primary expression c within) := by
  unfold primary
  split
  next => exact ends_fail c _
  next t rest hrest =>
    have ht := Parsed.token hrest
    have hliteral (value : Literal) (h : literal? t.kind = some value) :
        Reads (ExprSymbol.Derives .primary) c (.literal value) c.skip :=
      ⟨[t], ht.imp (List.Subperm.refl _) (fun _ ↦ .literal h) fun _ ↦ regular_literal _⟩
    dsimp only
    split
    next hkind => exact hliteral _ (by rw [hkind]; rfl)
    next hkind => exact hliteral _ (by rw [hkind]; rfl)
    next hkind => exact hliteral _ (by rw [hkind]; rfl)
    next hkind => exact hliteral _ (by rw [hkind]; rfl)
    next hkind => exact hliteral _ (by rw [hkind]; rfl)
    next hkind =>
      exact ⟨_, (ht.trans (Parsed.draw c.skip)).imp (List.Subperm.refl _) (fun _ ↦ .named hkind)
        fun hname ↦ regular_var (hname.1 hkind)⟩
    next hkind =>
      exact ⟨_, (ht.trans (Parsed.draw c.skip)).imp (List.Subperm.refl _) (fun _ ↦ .this hkind)
        fun _ ↦ regular_this⟩
    next hkind => exact Reply.ends_inside (sound_superAccess hrest hkind)
    next hkind => exact Reply.ends_inside (sound_grouping hexpression hrest hkind _)
    next => exact ends_fail c _

theorem sound_suffixesFrom (N : Nat) (target : Expr) {size : Nat} (c : Cursor) (within : c.size ≤ n)
    (less : c.size < size) (hN : c.size = N) :
    (suffixesFrom expression target c within less).Ends (fun e c' ↦ ∃ w ids,
      Parsed c w c' ids (ExprSymbol.Derives (.suffixes target.unnumbered) w e.unnumbered)
        (Regular target → Regular e) ∧ e.ids.Subperm (target.ids ++ ids)) (Stuck c) := by
  induction N using Nat.strongRecOn generalizing c target with
  | ind N ih =>
    rw [suffixesFrom]
    split
    next hcall =>
      obtain ⟨t, ht, hrest⟩ := Cursor.sees_iff.1 hcall
      have hskip := Parsed.token hrest
      refine ends_after hskip.stuck (Reply.ends_andThen (sound_arguments hexpression c.skip _) ?_)
      rintro values after shorter less ⟨w, r, hvalues, hright, hline⟩
      have hrest' := ih _ (hN ▸ Cursor.lt_of_lt_skip shorter) (.call target values.2 values.1) after
        (Cursor.le_of_lt_skip shorter within) less rfl
      refine (ends_after hvalues.stuck hrest').imp ?_ fun _ h ↦ h
      rintro e c' ⟨w', ids, hothers, hids⟩
      refine ⟨_, _, (hskip.trans (hvalues.trans hothers)).imp (List.Subperm.refl _)
        ?_ (fun h htarget ↦ h.2.2 (regular_call htarget h.2.1)), ?_⟩
      · rintro ⟨_, hargs, hmore⟩
        rw [List.append_assoc]
        rw [← hline] at hmore
        exact .application ht hargs hright hmore
      · exact hids.trans (by rw [Expr.ids, List.append_assoc]; exact List.Subperm.refl _)
    next =>
      split
      next hdot =>
        obtain ⟨t, ht, hrest⟩ := Cursor.sees_iff.1 hdot
        have hskip := Parsed.token hrest
        refine ends_after hskip.stuck (sound_andThen (sound_expectName c.skip _) ?_)
        rintro name after shorter less ⟨w, hname⟩
        refine (ih _ (hN ▸ Cursor.lt_of_lt_skip shorter) (.get target name) after
          (Cursor.le_of_lt_skip shorter within) less rfl).imp ?_ fun _ h ↦ h
        rintro e c' ⟨w', ids, hothers, hids⟩
        refine ⟨_, _, (hskip.trans (hname.trans hothers)).imp (List.Subperm.refl _)
          ?_ (fun h htarget ↦ h.2.2 (regular_get htarget)), hids⟩
        rintro ⟨_, ⟨m, hw, hm, hn⟩, hmore⟩
        have hname' : name = nameOf m := hn
        rw [hw]
        rw [Expr.unnumbered, hname'] at hmore
        exact .property ht hm hmore
      next =>
        refine ⟨[], [], (Parsed.nothing c).imp (List.Subperm.refl _) (fun _ ↦ .lastSuffix)
          (fun _ h ↦ h), ?_⟩
        rw [List.append_nil]

theorem sound_call (c : Cursor) (within : c.size ≤ n) :
    Sound (ExprSymbol.Derives .call) c (call expression c within) := by
  unfold call
  refine sound_bind (sound_primary hexpression c within) ?_
  rintro target next shorter ⟨w, hfirst⟩
  refine (sound_suffixesFrom hexpression _ target next _ shorter rfl).imp ?_ fun _ h ↦ h
  rintro e c' ⟨w', ids, hothers, hids⟩
  exact ⟨_, (hfirst.trans hothers).imp hids (fun h ↦ .call h.1 h.2) fun h ↦ h.2 h.1⟩

theorem sound_unary (N : Nat) (c : Cursor) (within : c.size ≤ n) (hN : c.size = N) :
    Sound (ExprSymbol.Derives .unary) c (unary expression c within) := by
  have hcall (c : Cursor) (within : c.size ≤ n) :
      Sound (ExprSymbol.Derives .unary) c (call expression c within) := by
    refine (sound_call hexpression c within).imp ?_ fun _ h ↦ h
    rintro e c' ⟨w, he⟩
    exact ⟨w, he.imp (List.Subperm.refl _) (fun h ↦ .unsigned h) fun h ↦ h⟩
  induction N using Nat.strongRecOn generalizing c with
  | ind N ih =>
    unfold unary
    split
    next => exact hcall c within
    next t rest hrest =>
      split
      next => exact hcall c within
      next op hop =>
        have hskip := Parsed.token hrest
        refine ends_after hskip.stuck
          (sound_last (ih _ (hN ▸ Cursor.size_skip_of_cons hrest) c.skip _ rfl) ?_)
        rintro e c' ⟨w, he⟩
        exact ⟨_, (hskip.trans he).imp (List.Subperm.refl _)
          (fun h ↦ .sign ((unaryOp?_iff t op).1 hop) h.2) fun h ↦ regular_unary op h.2⟩

end

theorem sound_chainFrom {n size : Nat} (k : Level) {operand : UpTo n Expr}
    (hoperand : ∀ c within, Sound (ExprSymbol.Derives k.operand) c (operand c within)) (N : Nat)
    (left : Expr) (c : Cursor) (within : c.size ≤ n) (less : c.size < size) (hN : c.size = N) :
    (chainFrom k.joiner operand left c within less).Ends (fun e c' ↦ ∃ w ids,
      Parsed c w c' ids (ExprSymbol.Derives (.further k left.unnumbered) w e.unnumbered)
        (Regular left → Regular e) ∧ e.ids.Subperm (left.ids ++ ids)) (Stuck c) := by
  induction N using Nat.strongRecOn generalizing c left with
  | ind N ih =>
    rw [chainFrom]
    split
    next =>
      refine ⟨[], [], (Parsed.nothing c).imp (List.Subperm.refl _) (fun _ ↦ .lastOperand)
        (fun _ h ↦ h), ?_⟩
      rw [List.append_nil]
    next f hf =>
      obtain ⟨t, hhead, hjoiner⟩ := Option.bind_eq_some_iff.1 hf
      obtain ⟨rest, hrest⟩ : ∃ rest, c.rest = t :: rest := List.head?_eq_some_iff.1 hhead
      obtain ⟨join, hjoin, rfl⟩ := (k.joiner_iff t f).1 hjoiner
      have hskip := Parsed.token hrest
      refine ends_after hskip.stuck (sound_andThen (hoperand c.skip _) ?_)
      rintro right after shorter less ⟨w, hright⟩
      obtain ⟨hids, hunnumbered, hregular⟩ := Level.operators_tree hjoin t.line left right
      refine (ih _ (hN ▸ Cursor.lt_of_lt_skip shorter) (join t.line left right) after
        (Cursor.le_of_lt_skip shorter within) less rfl).imp ?_ fun _ h ↦ h
      rintro e c' ⟨w', ids, hothers, hsub⟩
      refine ⟨_, _, (hskip.trans (hright.trans hothers)).imp (List.Subperm.refl _) ?_
        (fun h hleft ↦ h.2.2 (hregular hleft h.2.1)), ?_⟩
      · rintro ⟨_, hoperand, hmore⟩
        rw [hunnumbered] at hmore
        have hfurther := ExprSymbol.Derives.operator hjoin hoperand hmore
        exact hfurther
      · rw [hids, List.append_assoc] at hsub
        exact hsub

theorem sound_chain {n : Nat} (k : Level) {operand : UpTo n Expr}
    (hoperand : ∀ c within, Sound (ExprSymbol.Derives k.operand) c (operand c within)) (c : Cursor)
    (within : c.size ≤ n) :
    Sound (ExprSymbol.Derives (.level k)) c (chain k.joiner operand c within) := by
  refine sound_bind (hoperand c within) ?_
  rintro left after less ⟨w, hfirst⟩
  refine (sound_chainFrom k hoperand _ left after _ less rfl).imp ?_ fun _ h ↦ h
  rintro e c' ⟨w', ids, hothers, hids⟩
  exact ⟨_, (hfirst.trans hothers).imp hids (fun h ↦ .level h.1 h.2) fun h ↦ h.2 h.1⟩

/-! ### Targets of assignments -/

/-- A variable is one name, and a property is a call with a dot and a name behind it. -/
def Shaped (w : List Token) (e : Expr) : Prop :=
  (∀ name, e = .var 0 name → OneName w name) ∧
    ∀ o name, e = .get o name → ∃ u d n, w = u ++ [d, n] ∧ ExprSymbol.Derives .call u o ∧
      d.kind = .dot ∧ n.kind = .identifier ∧ name = nameOf n

/-- What derivations say of variables and properties. -/
def Shape : {α : Type} → ExprSymbol α → List Token → α → Prop
  | _, .level _, w, e => Shaped w e
  | _, .unary, w, e => Shaped w e
  | _, .call, w, e => Shaped w e
  | _, .primary, w, e => (∀ name, e = .var 0 name → OneName w name) ∧ ∀ o name, e ≠ .get o name
  | _, .further _ left, w, e =>
    (w = [] ∧ e = left) ∨ (∀ name, e ≠ .var 0 name) ∧ ∀ o name, e ≠ .get o name
  | _, .suffixes target, w, e =>
    (w = [] ∧ e = target) ∨ (∀ name, e ≠ .var 0 name) ∧ ∀ o name, e = .get o name →
      ∃ u d n, w = u ++ [d, n] ∧ ExprSymbol.Derives (.suffixes target) u o ∧
        d.kind = .dot ∧ n.kind = .identifier ∧ name = nameOf n
  | _, _, _, _ => True

theorem Level.operators_ne {k : Level} {kind : Token.Kind} {join : Nat → Expr → Expr → Expr}
    (hjoin : (kind, join) ∈ k.operators) (line : Nat) (l r : Expr) :
    (∀ name, join line l r ≠ .var 0 name) ∧ ∀ o name, join line l r ≠ .get o name := by
  cases k <;>
    simp only [operators, List.mem_cons, List.not_mem_nil, Prod.mk.injEq, or_false] at hjoin
  case disjunction | conjunction =>
    obtain ⟨-, rfl⟩ := hjoin
    simp
  case equality | term | factor => rcases hjoin with ⟨-, rfl⟩ | ⟨-, rfl⟩ <;> simp
  case comparison => rcases hjoin with ⟨-, rfl⟩ | ⟨-, rfl⟩ | ⟨-, rfl⟩ | ⟨-, rfl⟩ <;> simp

theorem shape {α : Type} {S : ExprSymbol α} {w : List Token} {a : α}
    (h : ExprSymbol.Derives S w a) : Shape S w a := by
  induction h with
  | @level k w l w' e first others ih ih' =>
    have hfirst : Shaped w l := by cases k <;> exact ih
    rcases ih' with ⟨rfl, rfl⟩ | ⟨hvar, hget⟩
    · rw [List.append_nil]
      exact hfirst
    · exact ⟨fun name heq ↦ absurd heq (hvar name), fun o name heq ↦ absurd heq (hget o name)⟩
  | lastOperand => exact Or.inl ⟨rfl, rfl⟩
  | operator hjoin right others ih ih' =>
    rcases ih' with ⟨-, rfl⟩ | hneither
    · exact Or.inr (Level.operators_ne hjoin _ _ _)
    · exact Or.inr hneither
  | sign sign operand ih => exact ⟨fun name heq ↦ (nomatch heq), fun o name heq ↦ (nomatch heq)⟩
  | unsigned call ih => exact ih
  | @call w e w' e' first others ih ih' =>
    rcases ih' with ⟨rfl, rfl⟩ | ⟨hvar, hget⟩
    · rw [List.append_nil]
      exact ⟨ih.1, fun o name heq ↦ absurd heq (ih.2 o name)⟩
    · refine ⟨fun name heq ↦ absurd heq (hvar name), fun o name heq ↦ ?_⟩
      obtain ⟨u, d, n, rfl, hu, hrest⟩ := hget o name heq
      exact ⟨w ++ u, d, n, (List.append_assoc ..).symm, .call first hu, hrest⟩
  | lastSuffix => exact Or.inl ⟨rfl, rfl⟩
  | @application e l w r w' es e' left arguments right others ih ih' =>
    refine Or.inr ?_
    rcases ih' with ⟨-, rfl⟩ | ⟨hvar, hget⟩
    · exact ⟨fun name heq ↦ (nomatch heq), fun o name heq ↦ (nomatch heq)⟩
    · refine ⟨hvar, fun o name heq ↦ ?_⟩
      obtain ⟨u, d, n, rfl, hu, hrest⟩ := hget o name heq
      exact ⟨l :: (w ++ r :: u), d, n, by simp, .application left arguments right hu, hrest⟩
  | @property e d n w e' dot name others ih =>
    refine Or.inr ?_
    rcases ih with ⟨rfl, rfl⟩ | ⟨hvar, hget⟩
    · refine ⟨fun name heq ↦ (nomatch heq), fun o name' heq ↦ ?_⟩
      cases heq
      exact ⟨[], d, n, rfl, .lastSuffix, dot, name, rfl⟩
    · refine ⟨hvar, fun o name' heq ↦ ?_⟩
      obtain ⟨u, d', n', rfl, hu, hrest⟩ := hget o name' heq
      exact ⟨d :: n :: u, d', n', rfl, .property dot name hu, hrest⟩
  | literal literal => exact ⟨fun name heq ↦ (nomatch heq), fun o name heq ↦ (nomatch heq)⟩
  | this this => exact ⟨fun name heq ↦ (nomatch heq), fun o name heq ↦ (nomatch heq)⟩
  | @named n name =>
    refine ⟨fun name' heq ↦ ?_, fun o name heq ↦ (nomatch heq)⟩
    cases heq
    exact ⟨n, rfl, name, rfl⟩
  | grouping left inner right ih =>
    exact ⟨fun name heq ↦ (nomatch heq), fun o name heq ↦ (nomatch heq)⟩
  | super super dot name => exact ⟨fun name heq ↦ (nomatch heq), fun o name heq ↦ (nomatch heq)⟩
  | _ => trivial

/-- The value of an assignment has been read, after the target and the equals sign. -/
theorem sound_assignTo {n : Nat} {target value : Expr} {c m next last : Cursor}
    {w w' : List Token} {q : Token} {ids : List NodeId} {regular : Prop} (hq : q.kind = .equal)
    (htarget : Parsed c w m target.ids
      (ExprSymbol.Derives (.level .disjunction) w target.unnumbered) (Regular target))
    (hequal : Parsed m [q] next ids True regular)
    (hvalue : Parsed next w' last value.ids (ExprSymbol.Derives .expression w' value.unnumbered)
      (Regular value)) (equals : Diagnostic) (less : last.size < n) :
    (assignTo target equals value last less).Ends (Reads (ExprSymbol.Derives .expression) c)
      (Stuck last) := by
  have hall := htarget.trans (hequal.trans hvalue)
  unfold assignTo
  split
  next id name =>
    refine ⟨_, (hall.trans (Parsed.draw last)).imp ?_ ?_
      fun h ↦ regular_assign (name_of_regular_var h.1.1) h.1.2.2⟩
    · refine List.Sublist.subperm (List.Sublist.append ?_ (List.Sublist.refl _))
      exact (List.sublist_append_right ..).trans (List.sublist_append_right ..)
    · rintro ⟨⟨ht, _, hv⟩, _⟩
      obtain ⟨t, rfl, ht, hname⟩ := (shape ht).1 name rfl
      rw [List.append_nil, hname]
      exact .assign ht hq hv
  next o name =>
    refine ⟨_, hall.imp ?_ ?_ fun h ↦ regular_set (object_of_regular_get h.1) h.2.2⟩
    · have hperm : (value.ids ++ o.ids).Perm (o.ids ++ value.ids) := List.perm_append_comm
      refine hperm.subperm.trans ?_
      exact List.Sublist.subperm (List.Sublist.append (List.Sublist.refl _)
        (List.sublist_append_right ..))
    · rintro ⟨ht, _, hv⟩
      obtain ⟨u, d, t, rfl, hu, hd, hn, hname⟩ := (shape ht).2 o.unnumbered name rfl
      have hset := ExprSymbol.Derives.set hu hd hn hq hv
      rw [List.append_assoc, hname]
      exact hset
  next other _ _ =>
    refine ⟨_, (hall.trans (Parsed.report last equals)).imp ?_ (fun h ↦ h.2.elim) fun h ↦ h.1.1⟩
    exact List.Sublist.subperm ((List.sublist_append_left ..).trans (List.sublist_append_left ..))

section

variable {n : Nat} {expression : Below n Expr}
  (hexpression : ∀ c less, Sound (ExprSymbol.Derives .expression) c (expression c less))

include hexpression

theorem sound_disjunction (c : Cursor) (within : c.size ≤ n) :
    Sound (ExprSymbol.Derives (.level .disjunction)) c (disjunction expression c within) :=
  sound_chain .disjunction (sound_chain .conjunction (sound_chain .equality
    (sound_chain .comparison (sound_chain .term (sound_chain .factor
      fun c within ↦ sound_unary hexpression _ c within rfl))))) c within

theorem sound_assignment (c : Cursor) (within : c.size ≤ n) :
    Sound (ExprSymbol.Derives .expression) c (assignment expression c within) := by
  unfold assignment
  refine sound_bind (sound_disjunction hexpression c within) ?_
  rintro target next shorter ⟨w, ht⟩
  split
  next hequal =>
    obtain ⟨q, hq, hrest⟩ := Cursor.sees_iff.1 hequal
    have hskip := Parsed.token hrest
    refine ends_after hskip.stuck (sound_andThen (hexpression next.skip _) ?_)
    rintro value last _ less ⟨w', hvalue⟩
    exact sound_assignTo hq ht hskip hvalue _ less
  next =>
    exact ⟨w, ht.imp (List.Subperm.refl _) (fun h ↦ .simple h) fun h ↦ h⟩

end

theorem sound_expression (c : Cursor) :
    Sound (ExprSymbol.Derives .expression) c (expression c) := by
  suffices h : ∀ N (c : Cursor), c.size = N →
      Sound (ExprSymbol.Derives .expression) c (expression c) from h _ c rfl
  intro N
  induction N using Nat.strongRecOn with
  | ind N ih =>
    intro c hN
    rw [expression]
    exact sound_assignment (fun shorter less ↦ ih _ (hN ▸ less) shorter rfl) c _

end Lox.Grammar
