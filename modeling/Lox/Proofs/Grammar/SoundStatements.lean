import Lox.Proofs.Grammar.SoundExpressions

/-!
What the rules for statements and declarations answer has a derivation in which every `else`
belongs to the nearest `if`, unless an error has been reported on the way. A block answers even
if something in it is not sound; it has reported an error then.
-/

set_option autoImplicit false

namespace Lox.Grammar

open Lox.Grammar.Tree (Regular)

/-- A word and the token that closes it. -/
def Until {α : Type} (derives : List Token → α → Prop) (kind : Token.Kind) (w : List Token)
    (a : α) : Prop :=
  ∃ u t, w = u ++ [t] ∧ t.kind = kind ∧ derives u a

/-- A word with a token of a kind in front of it. -/
def After {α : Type} (derives : List Token → α → Prop) (kind : Token.Kind) (w : List Token)
    (a : α) : Prop :=
  ∀ t, t.kind = kind → derives (t :: w) a

theorem of_word {α : Type} {derives : List Token → α → Prop} {w w' : List Token} {a : α}
    (h : derives w a) (hw : w' = w) : derives w' a :=
  hw ▸ h

/-! ### Parts of statements -/

theorem sound_expressionUntil (kind : Token.Kind) (cause : GrammarError) (c : Cursor) :
    Sound (Until (ExprSymbol.Derives .expression) kind) c (expressionUntil kind cause c) := by
  refine sound_bind (sound_expression c) ?_
  rintro value next _ ⟨w, hvalue⟩
  refine sound_last (sound_expect next kind cause) ?_
  rintro t last ⟨w', ht⟩
  refine ⟨_, (hvalue.trans ht).imp (List.sublist_append_left _ _).subperm ?_ fun h ↦ h.1⟩
  rintro ⟨he, hw', hkind⟩
  exact ⟨w, t, congrArg (fun v ↦ w ++ v) hw', hkind, he⟩

theorem sound_optionalUntil (kind : Token.Kind) (cause : GrammarError) (c : Cursor) :
    Sound (Until (Symbol.Derives true .optional) kind) c (optionalUntil kind cause c) := by
  unfold optionalUntil
  split
  next hclosing =>
    obtain ⟨t, ht, hrest⟩ := Cursor.sees_iff.1 hclosing
    exact ⟨[t], (Parsed.token hrest).imp (List.Subperm.refl _) (fun _ ↦ ⟨[], t, rfl, ht, .absent⟩)
      fun _ e he ↦ nomatch he⟩
  next =>
    refine sound_bind (sound_expression c) ?_
    rintro value next _ ⟨w, hvalue⟩
    refine sound_last (sound_expect next kind cause) ?_
    rintro t last ⟨w', ht⟩
    refine ⟨_, (hvalue.trans ht).imp (List.sublist_append_left _ _).subperm ?_ ?_⟩
    · rintro ⟨he, hw', hkind⟩
      exact ⟨w, t, congrArg (fun v ↦ w ++ v) hw', hkind, .present he⟩
    · intro h e he
      cases he
      exact h.1

theorem sound_expressionStatement (c : Cursor) :
    Sound (Symbol.Derives true .exprStmt) c (expressionStatement c) := by
  refine sound_map (sound_expressionUntil _ _ c) ?_
  rintro e next ⟨w, he⟩
  refine ⟨w, he.imp (List.Subperm.refl _) ?_ regular_expression⟩
  rintro ⟨u, t, hw, ht, hu⟩
  rw [hw]
  exact .exprStmt hu ht

/-- A condition, from its opening parenthesis to the closing one. -/
def Condition (w : List Token) (e : Expr) : Prop :=
  ∃ l u r, w = l :: (u ++ [r]) ∧ l.kind = .leftParen ∧ r.kind = .rightParen ∧
    ExprSymbol.Derives .expression u e

theorem sound_condition (opening : GrammarError) (c : Cursor) :
    Sound Condition c (condition opening c) := by
  refine sound_bind (sound_expect c .leftParen opening) ?_
  rintro l next _ ⟨w, hl⟩
  refine Reply.ends_inside ((sound_expressionUntil .rightParen _ next).imp ?_ fun _ h ↦ h)
  rintro e last ⟨w', he⟩
  refine ⟨_, (hl.trans he).imp (List.Subperm.refl _) ?_ fun h ↦ h.2⟩
  rintro ⟨⟨hw, hleft⟩, u, r, hw', hright, hu⟩
  exact ⟨l, u, r, by rw [hw, hw']; rfl, hleft, hright, hu⟩

theorem sound_varDeclaration (c : Cursor) :
    Sound (After (Symbol.Derives true .varDecl) .var) c (varDeclaration c) := by
  unfold varDeclaration
  refine sound_bind (sound_expectName c _) ?_
  rintro name next _ ⟨w, hname⟩
  split
  next hequal =>
    obtain ⟨q, hq, hrest⟩ := Cursor.sees_iff.1 hequal
    have hskip := Parsed.token hrest
    refine ends_after hskip.stuck (sound_last (sound_expressionUntil .semicolon _ next.skip) ?_)
    rintro value last ⟨w', hvalue⟩
    refine ⟨_, (hname.trans (hskip.trans hvalue)).imp (List.Subperm.refl _) ?_ ?_⟩
    · rintro ⟨⟨n, hw, hn, hnameOf⟩, _, u, t, hw', ht, hu⟩ v hv
      rw [hw, hw', show name = nameOf n from hnameOf]
      exact .defined hv hn hq hu ht
    · rintro ⟨hname, _, hvalue⟩
      refine regular_varDecl hname fun e he ↦ ?_
      cases he
      exact hvalue
  next =>
    refine sound_last (sound_expect next .semicolon _) ?_
    rintro t last ⟨w', ht⟩
    refine ⟨_, (hname.trans ht).imp (List.Subperm.refl _) ?_
      fun h ↦ regular_varDecl h.1 fun e he ↦ nomatch he⟩
    rintro ⟨⟨n, hw, hn, hnameOf⟩, hw', ht⟩ v hv
    rw [hw, hw', show name = nameOf n from hnameOf]
    exact .undefined hv hn ht

/-! ### Routines and classes -/

theorem sound_names (N : Nat) (c : Cursor) (hN : c.size = N) :
    Sound (Symbol.Derives true .names) c (names c) := by
  induction N using Nat.strongRecOn generalizing c with
  | ind N ih =>
    rw [names]
    refine sound_bind (sound_expectName c _) ?_
    rintro first next shorter ⟨w, hfirst⟩
    split
    next hcomma =>
      obtain ⟨t, ht, hrest⟩ := Cursor.sees_iff.1 hcomma
      have hskip := Parsed.token hrest
      refine ends_after hskip.stuck (sound_last
        (ih _ (hN ▸ Cursor.skip_lt_size shorter) next.skip rfl) ?_)
      rintro others last ⟨w', hothers⟩
      refine ⟨_, (hfirst.trans (hskip.trans hothers)).imp (List.Subperm.refl _) ?_ ?_⟩
      · rintro ⟨⟨n, hw, hn, hnameOf⟩, _, hmore⟩
        rw [hw, show first = nameOf n from hnameOf]
        exact .anotherName hn ht hmore
      · rintro ⟨hname, _, hmore⟩ x hx
        rcases List.mem_cons.1 hx with rfl | hx
        · exact hname
        · exact hmore x hx
    next =>
      refine ⟨_, hfirst.imp (List.Subperm.refl _) ?_
        fun hname x hx ↦ List.mem_singleton.1 hx ▸ hname⟩
      rintro ⟨n, hw, hn, hnameOf⟩
      rw [hw, show first = nameOf n from hnameOf]
      exact .oneName hn

theorem sound_parameters (c : Cursor) :
    Sound (Until (Symbol.Derives true .parameters) .rightParen) c (parameters c) := by
  unfold parameters
  split
  next hclosing =>
    obtain ⟨t, ht, hrest⟩ := Cursor.sees_iff.1 hclosing
    exact ⟨[t], (Parsed.token hrest).imp (List.Subperm.refl _)
      (fun _ ↦ ⟨[], t, rfl, ht, .noParameter⟩) fun _ x hx ↦ nomatch hx⟩
  next =>
    refine sound_bind (sound_names _ c rfl) ?_
    rintro values next _ ⟨w, hvalues⟩
    refine sound_last (sound_expect next .rightParen _) ?_
    rintro t last ⟨w', ht⟩
    refine ⟨_, (hvalues.trans ht).imp (List.Subperm.refl _) ?_ fun h ↦ h.1⟩
    rintro ⟨hnames, hw', hkind⟩
    exact ⟨w, t, congrArg (fun v ↦ w ++ v) hw', hkind, .parameters hnames⟩

/-- A stretch on which a statement is read. Behind one that is open there is no `else`. -/
def ReadsStatement (c : Cursor) (s : Stmt) (c' : Cursor) : Prop :=
  ∃ w, Parsed c w c' s.ids
    (∃ isOpen, Symbol.Derives true (.statement isOpen) w s.unnumbered ∧
      (isOpen = true → c'.sees .else_ = false))
    (Regular s ∧ s.declared = [])

/-- What is assumed of the rules for shorter texts. -/
structure SoundRules {n : Nat} (rules : Rules n) : Prop where
  statement : ∀ c less, (rules.statement c less).Ends (ReadsStatement c) (Stuck c)
  block : ∀ c less,
    Sound (Until (Symbol.Derives true .declarations) .rightBrace) c (rules.block c less)

section

variable {n : Nat} {rules : Rules n} (hrules : SoundRules rules)

include hrules

theorem sound_routine (kind : RoutineKind) (c : Cursor) (within : c.size ≤ n) :
    Sound (Symbol.Derives true .function) c (routine rules kind c within) := by
  unfold routine
  refine sound_bind (sound_expectName c _) ?_
  rintro name c₁ _ ⟨w₁, hname⟩
  refine sound_andThen (sound_expect c₁ .leftParen _) ?_
  rintro l c₂ _ _ ⟨w₂, hl⟩
  refine sound_andThen (sound_parameters c₂) ?_
  rintro params c₃ _ _ ⟨w₃, hparams⟩
  refine sound_andThen (sound_expect c₃ .leftBrace _) ?_
  rintro b c₄ _ less ⟨w₄, hb⟩
  refine sound_last (hrules.block c₄ (Cursor.lt_of_lt_of_le less within)) ?_
  rintro body c₅ ⟨w₅, hbody⟩
  refine ⟨_, (hname.trans (hl.trans (hparams.trans (hb.trans hbody)))).imp (List.Subperm.refl _) ?_
    fun h ↦ regular_routine h.1 h.2.2.1 h.2.2.2.2⟩
  rintro ⟨⟨m, hw₁, hm, hnameOf⟩, ⟨hw₂, hleft⟩, ⟨u, r, hw₃, hright, hu⟩, ⟨hw₄, hopen⟩,
    ⟨u', r', hw₅, hclose, hu'⟩⟩
  rw [hw₁, hw₂, hw₃, hw₄, hw₅, show name = nameOf m from hnameOf]
  refine of_word (Symbol.Derives.function hm hleft hu hright (.block hopen hu' hclose)) ?_
  simp only [List.cons_append, List.nil_append, List.append_assoc]

theorem sound_methods (N : Nat) (c : Cursor) (within : c.size ≤ n) (hN : c.size = N) :
    Sound (Until (Symbol.Derives true .functions) .rightBrace) c (methods rules c within) := by
  induction N using Nat.strongRecOn generalizing c with
  | ind N ih =>
    rw [methods]
    split
    next =>
      refine sound_map (sound_expect c .rightBrace _) ?_
      rintro t next ⟨w, ht⟩
      exact ⟨w, ht.imp (List.Subperm.refl _) (fun h ↦ ⟨[], t, h.1, h.2, .noFunction⟩)
        fun _ r hr ↦ nomatch hr⟩
    next =>
      refine sound_bind (sound_routine hrules .method c within) ?_
      rintro first next shorter ⟨w, hfirst⟩
      refine sound_last (ih _ (hN ▸ shorter) next _ rfl) ?_
      rintro others last ⟨w', hothers⟩
      refine ⟨_, (hfirst.trans hothers).imp (List.Subperm.refl _) ?_
        fun h ↦ regular_routines h.1 h.2⟩
      rintro ⟨hr, u, t, hw', hkind, hmore⟩
      refine ⟨w ++ u, t, ?_, hkind, .anotherFunction hr hmore⟩
      rw [hw', List.append_assoc]

theorem sound_classBody (name : Name) (superclass : Option Superclass) (c : Cursor)
    (less : c.size < n) :
    (classBody rules name superclass c less).Ends (fun s c' ↦ ∃ w rs,
      s = .class_ name superclass rs ∧ Parsed c w c' (Routine.idsAll rs)
        (∃ l u r, w = l :: (u ++ [r]) ∧ l.kind = .leftBrace ∧ r.kind = .rightBrace ∧
          Symbol.Derives true .functions u (Routine.unnumberedAll rs)) (Regular rs)) (Stuck c) := by
  unfold classBody
  refine sound_bind (sound_expect c .leftBrace _) ?_
  rintro l next shorter ⟨w, hl⟩
  refine sound_last (sound_methods hrules _ next _ rfl) ?_
  rintro rs last ⟨w', hrs⟩
  refine ⟨_, rs, rfl, (hl.trans hrs).imp (List.Subperm.refl _) ?_ fun h ↦ h.2⟩
  rintro ⟨⟨hw, hleft⟩, u, r, hw', hright, hu⟩
  refine ⟨l, u, r, ?_, hleft, hright, hu⟩
  rw [hw, hw']
  rfl

theorem sound_classDeclaration (c : Cursor) (within : c.size ≤ n) :
    Sound (After (Symbol.Derives true .declaration) .class_) c
      (classDeclaration rules c within) := by
  unfold classDeclaration
  refine sound_bind (sound_expectName c _) ?_
  rintro name next _ ⟨w, hname⟩
  split
  next hless =>
    obtain ⟨l, hl, hrest⟩ := Cursor.sees_iff.1 hless
    have hskip := Parsed.token hrest
    refine ends_after hskip.stuck (sound_andThen (sound_expectName next.skip _) ?_)
    rintro parent last _ _ ⟨w', hparent⟩
    refine ends_after (Parsed.draw last).stuck (Reply.ends_inside
      ((sound_classBody hrules name _ last.draw _).imp ?_ fun _ h ↦ h))
    rintro s c' ⟨v, rs, hs, hbody⟩
    subst hs
    refine ⟨_, (hname.trans (hskip.trans (hparent.trans ((Parsed.draw last).trans hbody)))).imp
      (List.Subperm.refl _) ?_ ?_⟩
    · rintro ⟨⟨m, hw, hm, hnameOf⟩, _, ⟨p, hw', hp, hparentOf⟩, _, b, u, r, hv, hleft, hright,
        hu⟩ k hk
      rw [hw, hw', hv]
      rw [show name = nameOf m from hnameOf, show parent = nameOf p from hparentOf]
      refine of_word (Symbol.Derives.classDecl hk hm (.extending hl hp) hleft hu hright) ?_
      simp only [List.cons_append, List.nil_append]
    · rintro ⟨hname, _, hparent, _, hrs⟩
      refine regular_class hname (fun s hs ↦ ?_) hrs
      cases hs
      exact hparent
  next =>
    refine Reply.ends_inside ((sound_classBody hrules name _ next _).imp ?_ fun _ h ↦ h)
    rintro s c' ⟨v, rs, hs, hbody⟩
    subst hs
    refine ⟨_, (hname.trans hbody).imp (List.Subperm.refl _) ?_
      fun h ↦ regular_class h.1 (fun s hs ↦ nomatch hs) h.2⟩
    rintro ⟨⟨m, hw, hm, hnameOf⟩, b, u, r, hv, hleft, hright, hu⟩ k hk
    rw [hw, hv]
    rw [show name = nameOf m from hnameOf]
    exact Symbol.Derives.classDecl hk hm .noHeritage hleft hu hright

end

/-! ### Statements -/

theorem readsStatement_of_closed {c c' : Cursor} {w : List Token} {s : Stmt}
    {derived regular : Prop} (h : Parsed c w c' s.ids derived regular)
    (hderived : derived → Symbol.Derives true (.statement false) w s.unnumbered)
    (hregular : regular → Regular s) (hdeclared : s.declared = []) : ReadsStatement c s c' :=
  ⟨w, h.imp (List.Subperm.refl _) (fun h ↦ ⟨false, hderived h, fun h ↦ (nomatch h)⟩)
    fun h ↦ ⟨hregular h, hdeclared⟩⟩

theorem ends_expressionStatement (c : Cursor) :
    (expressionStatement c).Ends (ReadsStatement c) (Stuck c) := by
  refine sound_map (sound_expressionUntil _ _ c) ?_
  rintro e next ⟨w, he⟩
  refine readsStatement_of_closed he ?_ regular_expression rfl
  rintro ⟨u, t, hw, ht, hu⟩
  rw [hw]
  exact .expression (.exprStmt hu ht)

theorem sound_printStatement {c : Cursor} {k : Token} {rest : List Token}
    (hrest : c.rest = k :: rest) (hkind : k.kind = .print) :
    (printStatement c.skip).Ends (ReadsStatement c) (Stuck c) := by
  have hskip := Parsed.token hrest
  refine ends_after hskip.stuck (sound_map (sound_expressionUntil _ _ c.skip) ?_)
  rintro e next ⟨w, he⟩
  refine readsStatement_of_closed (hskip.trans he) ?_ (fun h ↦ regular_print h.2) rfl
  rintro ⟨_, u, t, hw, ht, hu⟩
  rw [hw]
  exact .printStmt hkind hu ht

theorem sound_returnStatement {c : Cursor} {k : Token} {rest : List Token}
    (hrest : c.rest = k :: rest) (hkind : k.kind = .return_) :
    (returnStatement k.line c.skip).Ends (ReadsStatement c) (Stuck c) := by
  have hskip := Parsed.token hrest
  refine ends_after hskip.stuck (sound_map (sound_optionalUntil _ _ c.skip) ?_)
  rintro e next ⟨w, he⟩
  refine readsStatement_of_closed (hskip.trans he) ?_ (fun h ↦ regular_return h.2) rfl
  rintro ⟨_, u, t, hw, ht, hu⟩
  rw [hw]
  exact .returnStmt hkind hu ht

theorem declared_forLoop (first : Option Stmt) (test increment : Option Expr) (body : Stmt) :
    (forLoop first test increment body).declared = [] := by
  cases first <;> rfl

theorem unnumbered_forLoop (first : Option Stmt) (test increment : Option Expr) (body : Stmt) :
    (forLoop first test increment body).unnumbered =
      forOf (test.map Expr.unnumbered) (increment.map Expr.unnumbered) body.unnumbered
        (first.map Stmt.unnumbered) := by
  cases first <;> cases test <;> cases increment <;> rfl

theorem ids_forLoop (first : Option Stmt) (test increment : Option Expr) (body : Stmt) :
    (forLoop first test increment body).ids.Subperm
      (Stmt.idsAll first.toList ++ (Expr.idsOf test ++ (Expr.idsOf increment ++ body.ids))) := by
  refine List.Perm.subperm ?_
  have hswap (a b : List NodeId) : (b ++ a).Perm (a ++ b) := List.perm_append_comm
  cases first <;> cases test <;> cases increment <;>
    simp [forLoop, Stmt.ids, Stmt.idsAll, Expr.ids, Expr.idsOf, List.perm_append_left_iff, hswap]

theorem regular_forLoop {first : Option Stmt} {test increment : Option Expr} {body : Stmt}
    (hfirst : Regular first) (htest : Regular test) (hincrement : Regular increment)
    (hbody : Regular body) (hdeclared : body.declared = []) :
    Regular (forLoop first test increment body) := by
  have hcondition : Regular (test.getD (.literal .true)) := by
    cases test with
    | none => exact regular_literal _
    | some e => exact htest e rfl
  have hround (s : Stmt) (hs : Regular s) (hnone : s.declared = []) :
      Regular (Stmt.loop (test.getD (.literal .true)) s) := regular_loop hcondition hs hnone
  have hblock (e : Expr) (he : increment = some e) : Regular (Stmt.block [body, .expression e]) :=
    regular_block (regular_stmts hbody
      (regular_stmts (regular_expression (hincrement e he)) regular_noStmt))
  have hloop : Regular (forLoop none test increment body) := by
    cases increment with
    | none => exact hround body hbody hdeclared
    | some e => exact hround _ (hblock e rfl) rfl
  cases first with
  | none => exact hloop
  | some s =>
    exact regular_block (regular_stmts (hfirst s rfl) (regular_stmts hloop regular_noStmt))

theorem sound_forInitializer (c : Cursor) :
    Sound (Symbol.Derives true .initializer) c (forInitializer c) := by
  have hsome (s : Stmt) : (Stmt.idsAll (some s).toList).Subperm s.ids := by
    change (s.ids ++ []).Subperm s.ids
    rw [List.append_nil]
  have hregular (s : Stmt) (h : Regular s) : Regular (some s) := fun _ heq ↦ by
    cases heq
    exact h
  unfold forInitializer
  split
  next hsemicolon =>
    obtain ⟨t, ht, hrest⟩ := Cursor.sees_iff.1 hsemicolon
    exact ⟨[t], (Parsed.token hrest).imp (List.Subperm.refl _) (fun _ ↦ .noFirst ht)
      fun _ s hs ↦ nomatch hs⟩
  next =>
    split
    next hvar =>
      obtain ⟨v, hv, hrest⟩ := Cursor.sees_iff.1 hvar
      have hskip := Parsed.token hrest
      refine ends_after hskip.stuck (sound_last (sound_varDeclaration c.skip) ?_)
      rintro s last ⟨w, hs⟩
      exact ⟨_, (hskip.trans hs).imp (hsome s) (fun h ↦ .firstVar (h.2 v hv))
        fun h ↦ hregular s h.2⟩
    next =>
      refine sound_map (sound_expressionStatement c) ?_
      rintro s last ⟨w, hs⟩
      exact ⟨w, hs.imp (hsome s) (fun h ↦ .firstExpr h) fun h ↦ hregular s h⟩

section

variable {n : Nat} {rules : Rules n} (hrules : SoundRules rules)

include hrules

theorem sound_ifStatement {c : Cursor} {k : Token} {rest : List Token} (hrest : c.rest = k :: rest)
    (hkind : k.kind = .if_) (within : c.skip.size ≤ n) :
    (ifStatement rules c.skip within).Ends (ReadsStatement c) (Stuck c) := by
  have hskip := Parsed.token hrest
  refine ends_after hskip.stuck (sound_bind (sound_condition _ c.skip) ?_)
  rintro test next less ⟨w, htest⟩
  refine Reply.ends_andThen (hrules.statement next _) ?_
  rintro s last _ less ⟨w', hs⟩
  split
  next helse =>
    obtain ⟨j, hj, hrest'⟩ := Cursor.sees_iff.1 helse
    have hskip' := Parsed.token hrest'
    refine ends_after (hs.trans hskip').stuck (Reply.ends_map (Reply.ends_inside
      ((hrules.statement last.skip _).imp ?_ fun _ h ↦ h)))
    rintro t c' ⟨w'', ht⟩
    refine ⟨_, (hskip.trans (htest.trans (hs.trans (hskip'.trans ht)))).imp (List.Subperm.refl _)
      ?_ ?_⟩
    · rintro ⟨_, ⟨l, u, r, hw, hl, hr, hu⟩, ⟨isOpen, hs, hfollow⟩, _, isOpen', ht, hfollow'⟩
      refine ⟨isOpen', ?_, hfollow'⟩
      have hclosed : isOpen = false := by
        cases isOpen with
        | false => rfl
        | true => rw [hfollow rfl] at helse; cases helse
      rw [hw]
      refine of_word (Symbol.Derives.ifElse hkind hl hu hr hs (fun _ ↦ hclosed) hj ht) ?_
      simp only [List.cons_append, List.nil_append, List.append_assoc]
    · rintro ⟨_, htest, ⟨hs, hdeclared⟩, _, ht, hdeclared'⟩
      exact ⟨regular_ifElse htest hs ht hdeclared hdeclared', rfl⟩
  next helse =>
    refine ⟨_, (hskip.trans (htest.trans hs)).imp (List.Subperm.refl _) ?_ ?_⟩
    · rintro ⟨_, ⟨l, u, r, hw, hl, hr, hu⟩, isOpen, hs, _⟩
      refine ⟨true, ?_, fun _ ↦ by simpa using helse⟩
      rw [hw]
      refine of_word (Symbol.Derives.ifThen hkind hl hu hr hs) ?_
      simp only [List.cons_append, List.nil_append, List.append_assoc]
    · rintro ⟨_, htest, hs, hdeclared⟩
      exact ⟨regular_ifThen htest hs hdeclared, rfl⟩

theorem sound_whileStatement {c : Cursor} {k : Token} {rest : List Token}
    (hrest : c.rest = k :: rest) (hkind : k.kind = .while_) (within : c.skip.size ≤ n) :
    (whileStatement rules c.skip within).Ends (ReadsStatement c) (Stuck c) := by
  have hskip := Parsed.token hrest
  refine ends_after hskip.stuck (sound_bind (sound_condition _ c.skip) ?_)
  rintro test next less ⟨w, htest⟩
  refine Reply.ends_map (Reply.ends_inside ((hrules.statement next _).imp ?_ fun _ h ↦ h))
  rintro s c' ⟨w', hs⟩
  refine ⟨_, (hskip.trans (htest.trans hs)).imp (List.Subperm.refl _) ?_ ?_⟩
  · rintro ⟨_, ⟨l, u, r, hw, hl, hr, hu⟩, isOpen, hs, hfollow⟩
    refine ⟨isOpen, ?_, hfollow⟩
    rw [hw]
    refine of_word (Symbol.Derives.whileStmt hkind hl hu hr hs) ?_
    simp only [List.cons_append, List.nil_append, List.append_assoc]
  · rintro ⟨_, htest, hs, hdeclared⟩
    exact ⟨regular_loop htest hs hdeclared, rfl⟩

theorem sound_forStatement {c : Cursor} {k : Token} {rest : List Token}
    (hrest : c.rest = k :: rest) (hkind : k.kind = .for_) (within : c.skip.size ≤ n) :
    (forStatement rules c.skip within).Ends (ReadsStatement c) (Stuck c) := by
  have hskip := Parsed.token hrest
  refine ends_after hskip.stuck (sound_bind (sound_expect c.skip .leftParen _) ?_)
  rintro l c₁ _ ⟨w₁, hl⟩
  refine sound_andThen (sound_forInitializer c₁) ?_
  rintro first c₂ _ _ ⟨w₂, hfirst⟩
  refine sound_andThen (sound_optionalUntil _ _ c₂) ?_
  rintro test c₃ _ _ ⟨w₃, htest⟩
  refine sound_andThen (sound_optionalUntil _ _ c₃) ?_
  rintro increment c₄ _ less ⟨w₄, hincrement⟩
  refine Reply.ends_map (Reply.ends_inside ((hrules.statement c₄ _).imp ?_ fun _ h ↦ h))
  rintro body c' ⟨w₅, hbody⟩
  refine ⟨_, (hskip.trans (hl.trans (hfirst.trans (htest.trans (hincrement.trans hbody))))).imp
    (ids_forLoop first test increment body) ?_ ?_⟩
  · rintro ⟨_, ⟨hw₁, hleft⟩, hfirst, ⟨u, t, hw₃, ht, hu⟩, ⟨u', r, hw₄, hr, hu'⟩, isOpen, hs,
      hfollow⟩
    refine ⟨isOpen, ?_, hfollow⟩
    rw [hw₁, hw₃, hw₄, unnumbered_forLoop]
    refine of_word (Symbol.Derives.forStmt hkind hleft hfirst hu ht hu' hr hs) ?_
    simp only [List.cons_append, List.nil_append, List.append_assoc]
  · rintro ⟨_, _, hfirst, htest, hincrement, hbody, hdeclared⟩
    exact ⟨regular_forLoop hfirst htest hincrement hbody hdeclared, declared_forLoop ..⟩

theorem sound_blockStatement {c : Cursor} {k : Token} {rest : List Token}
    (hrest : c.rest = k :: rest) (hkind : k.kind = .leftBrace) (less : c.skip.size < n) :
    ((rules.block c.skip less).map Stmt.block).Ends (ReadsStatement c) (Stuck c) := by
  have hskip := Parsed.token hrest
  refine ends_after hskip.stuck (sound_map (hrules.block c.skip less) ?_)
  rintro ss last ⟨w, hss⟩
  refine ⟨_, (hskip.trans hss).imp (List.Subperm.refl _) ?_ fun h ↦ ⟨regular_block h.2, rfl⟩⟩
  rintro ⟨_, u, r, hw, hr, hu⟩
  refine ⟨false, ?_, fun h ↦ nomatch h⟩
  rw [hw]
  exact .blockStmt (.block hkind hu hr)

theorem sound_statementWith (c : Cursor) (within : c.size ≤ n) :
    (statementWith rules c within).Ends (ReadsStatement c) (Stuck c) := by
  unfold statementWith
  split
  next => exact ends_expressionStatement c
  next t rest hrest =>
    dsimp only
    split
    next reply hreply =>
      refine Reply.ends_inside ?_
      unfold statementAfter? at hreply
      split at hreply
      next hkind =>
        cases hreply
        exact sound_forStatement hrules hrest hkind _
      next hkind =>
        cases hreply
        exact sound_ifStatement hrules hrest hkind _
      next hkind =>
        cases hreply
        exact sound_whileStatement hrules hrest hkind _
      next hkind =>
        cases hreply
        exact sound_returnStatement hrest hkind
      next hkind =>
        cases hreply
        exact sound_blockStatement hrules hrest hkind _
      next hkind =>
        cases hreply
        exact sound_printStatement hrest hkind
      next => cases hreply
    next => exact ends_expressionStatement c

theorem sound_declarationWith (c : Cursor) (within : c.size ≤ n) :
    Sound (Symbol.Derives true .declaration) c (declarationWith rules c within) := by
  have hstatement : Sound (Symbol.Derives true .declaration) c (statementWith rules c within) := by
    refine (sound_statementWith hrules c within).imp ?_ fun _ h ↦ h
    rintro s c' ⟨w, hs⟩
    refine ⟨w, hs.imp (List.Subperm.refl _) ?_ fun h ↦ h.1⟩
    rintro ⟨isOpen, h, _⟩
    exact .plain h
  unfold declarationWith
  split
  next => exact hstatement
  next t rest hrest =>
    have hskip := Parsed.token hrest
    dsimp only
    split
    next reply hreply =>
      refine Reply.ends_inside (ends_after hskip.stuck ?_)
      unfold declarationAfter? at hreply
      split at hreply
      next hkind =>
        cases hreply
        refine (sound_classDeclaration hrules c.skip _).imp ?_ fun _ h ↦ h
        rintro s c' ⟨w, hs⟩
        exact ⟨_, (hskip.trans hs).imp (List.Subperm.refl _) (fun h ↦ h.2 t hkind) fun h ↦ h.2⟩
      next hkind =>
        cases hreply
        refine sound_map (sound_routine hrules .function c.skip _) ?_
        rintro r c' ⟨w, hr⟩
        exact ⟨_, (hskip.trans hr).imp (List.Subperm.refl _) (fun h ↦ .funDecl hkind h.2)
          fun h ↦ regular_function h.2⟩
      next hkind =>
        cases hreply
        refine (sound_varDeclaration c.skip).imp ?_ fun _ h ↦ h
        rintro s c' ⟨w, hs⟩
        exact ⟨_, (hskip.trans hs).imp (List.Subperm.refl _)
          (fun h ↦ .varDeclaration (h.2 t hkind)) fun h ↦ h.2⟩
      next => cases hreply
    next => exact hstatement

end

/-! ### Sequences of declarations -/

theorem suffix_resumeAfter (previous : Token) (tokens : List Token) :
    ∃ w, tokens = w ++ resumeAfter previous tokens := by
  induction tokens generalizing previous with
  | nil => exact ⟨[], rfl⟩
  | cons t rest ih =>
    unfold resumeAfter
    split
    · exact ⟨[], rfl⟩
    · obtain ⟨w, hw⟩ := ih t
      exact ⟨t :: w, congrArg (List.cons t) hw⟩

/-- After an error some tokens are left out, and nothing needs to have been derived. -/
theorem parsed_afterError (c : Cursor) (cause : Diagnostic) :
    ∃ w, Parsed c w (afterError c cause) [] False True := by
  obtain ⟨w, hw⟩ : ∃ w, c.rest = w ++ resume c.rest := by
    cases c.rest with
    | nil => exact ⟨[], rfl⟩
    | cons t rest =>
      obtain ⟨w, hw⟩ := suffix_resumeAfter t rest
      exact ⟨t :: w, congrArg (List.cons t) hw⟩
  refine ⟨w, hw, ?_, Nat.le_refl _, fun _ h ↦ (nomatch h), List.nodup_nil, fun hclean ↦ ?_,
    fun _ ↦ trivial⟩
  · simp [afterError, Cursor.report]
  · simp [afterError, Cursor.report] at hclean

variable {size : Nat} {c c' : Cursor} {r : Reply size Stmt}

theorem stuck_recover (pos : 0 < size) (h : Sound (Symbol.Derives true .declaration) c r) :
    Stuck c (recover r pos).next := by
  cases r with
  | done s next shorter => exact Reads.stuck h
  | failed cause next notLonger =>
    obtain ⟨w, hw⟩ := parsed_afterError next cause
    exact Stuck.trans h hw.stuck

/-- A declaration, and what has been read after it, or after what has been left out because of an
error in it. -/
theorem reads_recover (pos : 0 < size) (h : Sound (Symbol.Derives true .declaration) c r)
    {derives : List Token → List Stmt → Prop}
    (hanother : ∀ w w' s ss, Symbol.Derives true .declaration w s → derives w' ss →
      derives (w ++ w') (s :: ss)) {ss : List Stmt}
    (hss : Reads derives (recover r pos).next ss c') :
    Reads derives c ((recover r pos).value.toList ++ ss) c' := by
  obtain ⟨w', hw'⟩ := hss
  cases r with
  | done s next shorter =>
    obtain ⟨w, hw⟩ := h
    exact ⟨w ++ w', (hw.trans hw').imp (List.Subperm.refl _) (fun h ↦ hanother _ _ _ _ h.1 h.2)
      fun h ↦ regular_stmts h.1 h.2⟩
  | failed cause next notLonger =>
    obtain ⟨w, hw⟩ := h
    obtain ⟨v, hv⟩ := parsed_afterError next cause
    exact ⟨_, (hw.trans (hv.trans hw')).imp (List.Subperm.refl _) (fun h ↦ h.2.1.elim)
      fun h ↦ h.2.2⟩

theorem sound_blockWith {n : Nat} {rules : Rules n} (hrules : SoundRules rules) (N : Nat)
    (c : Cursor) (within : c.size ≤ n) (hN : c.size = N) :
    Sound (Until (Symbol.Derives true .declarations) .rightBrace) c (blockWith rules c within) := by
  induction N using Nat.strongRecOn generalizing c with
  | ind N ih =>
    rw [blockWith]
    split
    next =>
      refine sound_map (sound_expect c .rightBrace _) ?_
      rintro t next ⟨w, ht⟩
      exact ⟨w, ht.imp (List.Subperm.refl _) (fun h ↦ ⟨[], t, h.1, h.2, .nothing⟩)
        fun _ ↦ regular_noStmt⟩
    next hstop =>
      have hfirst := sound_declarationWith hrules c within
      have hpos := Cursor.size_pos hstop
      have hshorter := (recover (declarationWith rules c within) hpos).shorter
      refine ends_after (stuck_recover hpos hfirst) (sound_last (ih _ (hN ▸ hshorter) _ _ rfl)
        fun ss last hss ↦ reads_recover hpos hfirst (fun w w' s ss hs hmore ↦ ?_) hss)
      obtain ⟨u, t, hw', ht, hu⟩ := hmore
      exact ⟨w ++ u, t, by rw [hw', List.append_assoc], ht, .another hs hu⟩

theorem sound_rules (n : Nat) : SoundRules (rules n) := by
  induction n using Nat.strongRecOn with
  | ind n ih =>
    rw [rules]
    exact ⟨fun c less ↦ sound_statementWith (ih c.size less) c c.le_self,
      fun c less ↦ sound_blockWith (ih c.size less) _ c c.le_self rfl⟩

theorem reads_declarations (N : Nat) (c : Cursor) (hN : c.size = N) :
    Reads (Symbol.Derives true .declarations) c (declarations c).1 (declarations c).2 ∧
      (declarations c).2.rest = [] := by
  induction N using Nat.strongRecOn generalizing c with
  | ind N ih =>
    rw [declarations]
    split
    next hnone =>
      exact ⟨⟨[], (Parsed.nothing c).imp (List.Subperm.refl _) (fun _ ↦ .nothing)
        fun _ ↦ regular_noStmt⟩, List.length_eq_zero_iff.1 hnone⟩
    next hsome =>
      have hfirst := sound_declarationWith (sound_rules c.size) c c.le_self
      have hpos := Nat.pos_of_ne_zero hsome
      have hshorter := (recover (declaration c) hpos).shorter
      obtain ⟨hmore, hend⟩ := ih _ (hN ▸ hshorter) (recover (declaration c) hpos).next rfl
      exact ⟨reads_recover hpos hfirst (fun w w' s ss hs hss ↦ .another hs hss) hmore, hend⟩

end Lox.Grammar
