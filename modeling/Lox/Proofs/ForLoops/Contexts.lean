import Lox.Proofs.Outlines.Words

/-!
Where a statement may stand. A context is a derivation with one statement left out: the tokens on
either side of it, and the tree that each statement makes there. Any word that derives a statement
fills it (`Symbol.Context.fill`). A context for statements of one kind, that end in an `if` without
an `else` or that do not, is one for those of the other kind too, unless an `else` follows
(`Symbol.Context.adapts`). Where one follows, an open statement takes it, and what stands around the
two is a context for both together (`Symbol.Context.absorbs`).
-/

set_option autoImplicit false

namespace Lox.Grammar

/-- A symbol with a statement left out of it, which ends in an `if` without an `else` if it
`isOpen`. -/
inductive Symbol.Context (isOpen : Bool) :
    {α : Type} → Symbol α → List Token → List Token → (Stmt → α) → Prop
  | here : Context isOpen (.statement isOpen) [] [] fun s ↦ s
  | firstDeclaration {pre post tree w ss} (context : Context isOpen .declaration pre post tree)
    (others : Derives true .declarations w ss) :
    Context isOpen .declarations pre (post ++ w) fun s ↦ tree s :: ss
  | laterDeclaration {w s pre post tree} (first : Derives true .declaration w s)
    (context : Context isOpen .declarations pre post tree) :
    Context isOpen .declarations (w ++ pre) post fun t ↦ s :: tree t
  | classDecl {c n w l pre post r superclass tree} (class_ : c.kind = .class_)
    (name : n.kind = .identifier) (heritage : Derives true .heritage w superclass)
    (left : l.kind = .leftBrace) (context : Context isOpen .functions pre post tree)
    (right : r.kind = .rightBrace) :
    Context isOpen .declaration (c :: n :: (w ++ l :: pre)) (post ++ [r])
      fun s ↦ .class_ (nameOf n) superclass (tree s)
  | funDecl {f pre post tree} (fun_ : f.kind = .fun_)
    (context : Context isOpen .function pre post tree) :
    Context isOpen .declaration (f :: pre) post fun s ↦ .function (tree s)
  | plain {isOpen' pre post tree} (context : Context isOpen (.statement isOpen') pre post tree) :
    Context isOpen .declaration pre post tree
  | firstFunction {pre post tree w rs} (context : Context isOpen .function pre post tree)
    (others : Derives true .functions w rs) :
    Context isOpen .functions pre (post ++ w) fun s ↦ tree s :: rs
  | laterFunction {w r pre post tree} (first : Derives true .function w r)
    (context : Context isOpen .functions pre post tree) :
    Context isOpen .functions (w ++ pre) post fun s ↦ r :: tree s
  | function {n l w r pre post names tree} (name : n.kind = .identifier)
    (left : l.kind = .leftParen) (parameters : Derives true .parameters w names)
    (right : r.kind = .rightParen) (context : Context isOpen .block pre post tree) :
    Context isOpen .function (n :: l :: (w ++ r :: pre)) post
      fun s ↦ ⟨nameOf n, names, tree s⟩
  | block {l pre post r tree} (left : l.kind = .leftBrace)
    (context : Context isOpen .declarations pre post tree) (right : r.kind = .rightBrace) :
    Context isOpen .block (l :: pre) (post ++ [r]) tree
  | blockStmt {pre post tree} (context : Context isOpen .block pre post tree) :
    Context isOpen (.statement false) pre post fun s ↦ .block (tree s)
  | whileBody {k l w r e isOpen' pre post tree} (while_ : k.kind = .while_)
    (left : l.kind = .leftParen) (test : ExprSymbol.Derives .expression w e)
    (right : r.kind = .rightParen) (context : Context isOpen (.statement isOpen') pre post tree) :
    Context isOpen (.statement isOpen') (k :: l :: (w ++ r :: pre)) post fun s ↦ .loop e (tree s)
  | forBody {k l w w' t w'' r first test increment isOpen' pre post tree} (for_ : k.kind = .for_)
    (left : l.kind = .leftParen) (initializer : Derives true .initializer w first)
    (test_ : Derives true .optional w' test) (semicolon : t.kind = .semicolon)
    (increment_ : Derives true .optional w'' increment) (right : r.kind = .rightParen)
    (context : Context isOpen (.statement isOpen') pre post tree) :
    Context isOpen (.statement isOpen') (k :: l :: (w ++ (w' ++ t :: (w'' ++ r :: pre)))) post
      fun s ↦ forOf test increment (tree s) first
  | ifThen {k l w r e isOpen' pre post tree} (if_ : k.kind = .if_) (left : l.kind = .leftParen)
    (test : ExprSymbol.Derives .expression w e) (right : r.kind = .rightParen)
    (context : Context isOpen (.statement isOpen') pre post tree) :
    Context isOpen (.statement true) (k :: l :: (w ++ r :: pre)) post fun s ↦ .ifThen e (tree s)
  | consequent {k l w r e pre post tree j w' s' isOpen'} (if_ : k.kind = .if_)
    (left : l.kind = .leftParen) (test : ExprSymbol.Derives .expression w e)
    (right : r.kind = .rightParen) (context : Context isOpen (.statement false) pre post tree)
    (else_ : j.kind = .else_) (alternative : Derives true (.statement isOpen') w' s') :
    Context isOpen (.statement isOpen') (k :: l :: (w ++ r :: pre)) (post ++ j :: w')
      fun s ↦ .ifElse e (tree s) s'
  | alternative {k l w r w' e s j isOpen' pre post tree} (if_ : k.kind = .if_)
    (left : l.kind = .leftParen) (test : ExprSymbol.Derives .expression w e)
    (right : r.kind = .rightParen) (consequent : Derives true (.statement false) w' s)
    (else_ : j.kind = .else_) (context : Context isOpen (.statement isOpen') pre post tree) :
    Context isOpen (.statement isOpen') (k :: l :: (w ++ r :: (w' ++ j :: pre))) post
      fun t ↦ .ifElse e s (tree t)

namespace Symbol.Context

variable {isOpen : Bool} {α : Type} {S : Symbol α} {pre post w : List Token}
  {tree : Stmt → α} {s : Stmt}

/-- A statement in its context. -/
theorem fill (h : Context isOpen S pre post tree) (hs : Derives true (.statement isOpen) w s) :
    Derives true S (pre ++ (w ++ post)) (tree s) := by
  induction h with
  | here => simpa using hs
  | firstDeclaration _ others ih => simpa using Derives.another ih others
  | laterDeclaration first _ ih => simpa using Derives.another first ih
  | classDecl class_ name heritage left _ right ih =>
    simpa using Derives.classDecl class_ name heritage left ih right
  | funDecl fun_ _ ih => exact .funDecl fun_ ih
  | plain _ ih => exact .plain ih
  | firstFunction _ others ih => simpa using Derives.anotherFunction ih others
  | laterFunction first _ ih => simpa using Derives.anotherFunction first ih
  | function name left parameters right _ ih =>
    simpa using Derives.function name left parameters right ih
  | block left _ right ih => simpa using Derives.block left ih right
  | blockStmt _ ih => exact .blockStmt ih
  | whileBody while_ left test right _ ih => simpa using Derives.whileStmt while_ left test right ih
  | forBody for_ left initializer test_ semicolon increment_ right _ ih =>
    simpa using Derives.forStmt for_ left initializer test_ semicolon increment_ right ih
  | ifThen if_ left test right _ ih => simpa using Derives.ifThen if_ left test right ih
  | consequent if_ left test right _ else_ alternative ih =>
    simpa using Derives.ifElse if_ left test right ih (fun _ ↦ rfl) else_ alternative
  | alternative if_ left test right consequent else_ _ ih =>
    simpa using Derives.ifElse if_ left test right consequent (fun _ ↦ rfl) else_ ih

end Symbol.Context

/-! ### Contexts for other statements -/

/-- The context takes statements of the other kind. What it makes of them can become open itself
only where they end it. -/
def Symbol.Adapts (isOpen isOpen' : Bool) :
    {α : Type} → Symbol α → List Token → List Token → (Stmt → α) → Prop
  | _, .statement b, pre, post, tree =>
    ∃ b', Context isOpen' (.statement b') pre post tree ∧
      (b' = true → b = true ∨ post = [] ∧ isOpen' = true ∧ isOpen = false)
  | _, S, pre, post, tree => Context isOpen' S pre post tree

/-- An open statement may stand wherever no `else` follows, and one that is not open anywhere. -/
theorem Symbol.Context.adapts {isOpen isOpen' : Bool} {α : Type} {S : Symbol α}
    {pre post : List Token} {tree : Stmt → α} (h : Context isOpen S pre post tree)
    (hopen : isOpen' = true → isOpen = true ∨ ∀ j, post.head? = some j → j.kind ≠ .else_) :
    Adapts isOpen isOpen' S pre post tree := by
  have hfirst {u u' : List Token}
      (h : isOpen' = true → isOpen = true ∨ ∀ j, (u ++ u').head? = some j → j.kind ≠ .else_) :
      isOpen' = true → isOpen = true ∨ ∀ j, u.head? = some j → j.kind ≠ .else_ := fun htrue ↦
    (h htrue).imp_right fun hnone j hj ↦ hnone j (by simp [List.head?_append, hj])
  induction h with
  | here => exact ⟨isOpen', .here, by cases isOpen <;> simp⟩
  | firstDeclaration _ others ih => exact .firstDeclaration (ih (hfirst hopen)) others
  | laterDeclaration first _ ih => exact .laterDeclaration first (ih hopen)
  | classDecl class_ name heritage left _ right ih =>
    exact .classDecl class_ name heritage left (ih (hfirst hopen)) right
  | funDecl fun_ _ ih => exact .funDecl fun_ (ih hopen)
  | plain _ ih =>
    obtain ⟨_, hcontext, -⟩ := ih hopen
    exact .plain hcontext
  | firstFunction _ others ih => exact .firstFunction (ih (hfirst hopen)) others
  | laterFunction first _ ih => exact .laterFunction first (ih hopen)
  | function name left parameters right _ ih =>
    exact .function name left parameters right (ih hopen)
  | block left _ right ih => exact .block left (ih (hfirst hopen)) right
  | blockStmt _ ih => exact ⟨false, .blockStmt (ih hopen), nofun⟩
  | whileBody while_ left test right _ ih =>
    obtain ⟨b', hcontext, hb'⟩ := ih hopen
    exact ⟨b', .whileBody while_ left test right hcontext, hb'⟩
  | forBody for_ left initializer test_ semicolon increment_ right _ ih =>
    obtain ⟨b', hcontext, hb'⟩ := ih hopen
    exact ⟨b', .forBody for_ left initializer test_ semicolon increment_ right hcontext, hb'⟩
  | ifThen if_ left test right _ ih =>
    obtain ⟨_, hcontext, -⟩ := ih hopen
    exact ⟨true, .ifThen if_ left test right hcontext, fun _ ↦ .inl rfl⟩
  | @consequent k l w r e pre post tree j w' s' b if_ left test right _ else_ alternative ih =>
    obtain ⟨b', hcontext, hb'⟩ := ih (hfirst hopen)
    have hclosed : b' = false := by
      refine Bool.eq_false_iff.2 fun htrue ↦ ?_
      obtain ⟨rfl, hopen', hclosed⟩ := (hb' htrue).resolve_left nofun
      -- the `else` of this very statement would follow
      exact ((hopen hopen').resolve_left (by simp [hclosed])) j rfl else_
    exact ⟨b, .consequent if_ left test right (hclosed ▸ hcontext) else_ alternative, .inl⟩
  | alternative if_ left test right consequent else_ _ ih =>
    obtain ⟨b', hcontext, hb'⟩ := ih hopen
    exact ⟨b', .alternative if_ left test right consequent else_ hcontext, hb'⟩

/-! ### An else for the statement that is left out -/

/-- A context that is open where it ends takes an `else`, if the statement that is left out does not
end it and take the `else` itself. -/
def Symbol.TakesElse (isOpen : Bool) : {α : Type} → Symbol α → List Token → List Token → Prop
  | _, .statement b, pre, post => b = true → ∀ (j : Token) (w : List Token) (s : Stmt) (b' : Bool),
    j.kind = .else_ → Derives true (.statement b') w s →
      (∃ b'' tree, Context isOpen (.statement b'') pre (post ++ j :: w) tree) ∨
        post = [] ∧ isOpen = true
  | _, _, _, _ => True

theorem Symbol.Context.takesElse {isOpen : Bool} {α : Type} {S : Symbol α} {pre post : List Token}
    {tree : Stmt → α} (h : Context isOpen S pre post tree) : TakesElse isOpen S pre post := by
  induction h with
  | here => exact fun hopen _ _ _ _ _ _ ↦ Or.inr ⟨rfl, hopen⟩
  | blockStmt _ _ => exact nofun
  | whileBody while_ left test right _ ih =>
    intro hopen j u s b hj hs
    exact (ih hopen j u s b hj hs).imp_left fun ⟨b', _, hcontext⟩ ↦
      ⟨b', _, .whileBody while_ left test right hcontext⟩
  | forBody for_ left initializer test_ semicolon increment_ right _ ih =>
    intro hopen j u s b hj hs
    exact (ih hopen j u s b hj hs).imp_left fun ⟨b', _, hcontext⟩ ↦
      ⟨b', _, .forBody for_ left initializer test_ semicolon increment_ right hcontext⟩
  | @ifThen k l w r e isOpen' pre post tree if_ left test right hcontext ih =>
    intro _ j u s b hj hs
    cases isOpen' with
    | false => exact Or.inl ⟨b, _, .consequent if_ left test right hcontext hj hs⟩
    | true =>
      exact (ih rfl j u s b hj hs).imp_left fun ⟨_, _, hcontext⟩ ↦
        ⟨true, _, .ifThen if_ left test right hcontext⟩
  | consequent if_ left test right hcontext else_ alternative _ =>
    intro hopen j u s b hj hs
    subst hopen
    obtain ⟨b', s'', hs''⟩ := alternative.closable j u s b hj hs
    have hlonger := Context.consequent if_ left test right hcontext else_ hs''
    exact Or.inl ⟨b', _, by simpa using hlonger⟩
  | alternative if_ left test right consequent else_ _ ih =>
    intro hopen j u s b hj hs
    exact (ih hopen j u s b hj hs).imp_left fun ⟨b', _, hcontext⟩ ↦
      ⟨b', _, .alternative if_ left test right consequent else_ hcontext⟩
  | _ => trivial

/-- What stands on either side of a statement, in some context for it. -/
def Symbol.Surrounds (isOpen : Bool) : {α : Type} → Symbol α → List Token → List Token → Prop
  | _, .statement _, pre, post => ∃ b tree, Context isOpen (.statement b) pre post tree
  | _, S, pre, post => ∃ tree, Context isOpen S pre post tree

/-- In the place of a statement that is not open an open one takes the `else` parts that come next
and go to it. With them it is a statement, and what is left is a context for that. -/
theorem Symbol.Context.absorbs {α : Type} {S : Symbol α} {pre post w : List Token}
    {tree : Stmt → α} {s : Stmt} (h : Context false S pre post tree)
    (hs : Derives true (.statement true) w s) :
    ∃ u post' b s', post = u ++ post' ∧ Derives true (.statement b) (w ++ u) s' ∧
      Surrounds b S pre post' := by
  induction h with
  | here => exact ⟨[], [], true, s, rfl, by simpa using hs, true, _, .here⟩
  | firstDeclaration _ others ih =>
    obtain ⟨u, post', b, s', rfl, hs', _, hcontext⟩ := ih
    exact ⟨u, _, b, s', List.append_assoc .., hs', _, .firstDeclaration hcontext others⟩
  | laterDeclaration first _ ih =>
    obtain ⟨u, post', b, s', rfl, hs', _, hcontext⟩ := ih
    exact ⟨u, post', b, s', rfl, hs', _, .laterDeclaration first hcontext⟩
  | classDecl class_ name heritage left _ right ih =>
    obtain ⟨u, post', b, s', rfl, hs', _, hcontext⟩ := ih
    exact ⟨u, _, b, s', List.append_assoc .., hs', _,
      .classDecl class_ name heritage left hcontext right⟩
  | funDecl fun_ _ ih =>
    obtain ⟨u, post', b, s', rfl, hs', _, hcontext⟩ := ih
    exact ⟨u, post', b, s', rfl, hs', _, .funDecl fun_ hcontext⟩
  | plain _ ih =>
    obtain ⟨u, post', b, s', rfl, hs', _, _, hcontext⟩ := ih
    exact ⟨u, post', b, s', rfl, hs', _, .plain hcontext⟩
  | firstFunction _ others ih =>
    obtain ⟨u, post', b, s', rfl, hs', _, hcontext⟩ := ih
    exact ⟨u, _, b, s', List.append_assoc .., hs', _, .firstFunction hcontext others⟩
  | laterFunction first _ ih =>
    obtain ⟨u, post', b, s', rfl, hs', _, hcontext⟩ := ih
    exact ⟨u, post', b, s', rfl, hs', _, .laterFunction first hcontext⟩
  | function name left parameters right _ ih =>
    obtain ⟨u, post', b, s', rfl, hs', _, hcontext⟩ := ih
    exact ⟨u, post', b, s', rfl, hs', _, .function name left parameters right hcontext⟩
  | block left _ right ih =>
    obtain ⟨u, post', b, s', rfl, hs', _, hcontext⟩ := ih
    exact ⟨u, _, b, s', List.append_assoc .., hs', _, .block left hcontext right⟩
  | blockStmt _ ih =>
    obtain ⟨u, post', b, s', rfl, hs', _, hcontext⟩ := ih
    exact ⟨u, post', b, s', rfl, hs', _, _, .blockStmt hcontext⟩
  | whileBody while_ left test right _ ih =>
    obtain ⟨u, post', b, s', rfl, hs', _, _, hcontext⟩ := ih
    exact ⟨u, post', b, s', rfl, hs', _, _, .whileBody while_ left test right hcontext⟩
  | forBody for_ left initializer test_ semicolon increment_ right _ ih =>
    obtain ⟨u, post', b, s', rfl, hs', _, _, hcontext⟩ := ih
    exact ⟨u, post', b, s', rfl, hs', _, _,
      .forBody for_ left initializer test_ semicolon increment_ right hcontext⟩
  | ifThen if_ left test right _ ih =>
    obtain ⟨u, post', b, s', rfl, hs', _, _, hcontext⟩ := ih
    exact ⟨u, post', b, s', rfl, hs', _, _, .ifThen if_ left test right hcontext⟩
  | @consequent k l w' r e pre post tree j u' _ _ if_ left test right _ else_ alternative ih =>
    obtain ⟨u, post', b, s', rfl, hs', isOpen', _, hcontext⟩ := ih
    cases isOpen' with
    | false =>
      exact ⟨u, _, b, s', List.append_assoc .., hs', _, _,
        .consequent if_ left test right hcontext else_ alternative⟩
    | true =>
      -- this `if` has lost its `else` to what stands in it
      rcases hcontext.takesElse rfl j u' _ _ else_ alternative with ⟨_, _, hlonger⟩ | ⟨rfl, rfl⟩
      · exact ⟨u, _, b, s', List.append_assoc .., hs', _, _,
          .ifThen if_ left test right hlonger⟩
      · obtain ⟨b', s'', hs''⟩ := hs'.closable j u' _ _ else_ alternative
        have hwider : Adapts true b' (.statement true) pre [] _ := hcontext.adapts fun _ ↦ .inl rfl
        obtain ⟨_, hcontext', -⟩ := hwider
        exact ⟨u ++ j :: u', [], b', s'', by simp, by simpa using hs'', _, _,
          .ifThen if_ left test right hcontext'⟩
  | alternative if_ left test right consequent else_ _ ih =>
    obtain ⟨u, post', b, s', rfl, hs', _, _, hcontext⟩ := ih
    exact ⟨u, post', b, s', rfl, hs', _, _,
      .alternative if_ left test right consequent else_ hcontext⟩

end Lox.Grammar
