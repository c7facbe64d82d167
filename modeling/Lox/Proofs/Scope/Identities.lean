import Lox.Proofs.Grammar.SoundStatements
import Mathlib.Data.List.Nodup
import Mathlib.Data.List.Pairwise

/-!
One identity for each use of a name. The identities of a piece of code are those of the uses under
it; where none comes twice, parts of the code have none in common, and an identity leads to one use
only, in one setting. In what the parser reads none ever comes twice, whatever the tokens are: every
rule draws identities from where the counter stands on, and the counter is never put back, also not
by what is left out because of an error.
-/

set_option autoImplicit false

namespace Lox

variable {Δ Δ₁ Δ₂ : Setting} {c c₁ c₂ : Code} {id : NodeId}

/-! ### Identities are those of uses -/

/-- A use of a name with this identity is under the code. -/
def Code.Uses (c : Code) (Δ : Setting) (id : NodeId) : Prop := ∃ Δ' x, Under Δ c Δ' (.use id x)

theorem Code.Uses.within (h : c₁.Uses Δ₁ id) (part : Part Δ c Δ₁ c₁) : c.Uses Δ id := by
  obtain ⟨Δ', x, hunder⟩ := h
  exact ⟨Δ', x, .step part hunder⟩

theorem Part.uses {x : String} (part : Part Δ c Δ₁ (.use id x)) : c.Uses Δ id :=
  ⟨Δ₁, x, .step part .refl⟩

mutual

theorem Expr.uses_of_mem (Δ : Setting) : ∀ e : Expr, id ∈ e.ids → (Code.expr e).Uses Δ id
  | .literal _, h => nomatch h
  | .grouping e, h => (e.uses_of_mem Δ h).within .grouping
  | .unary _ _ e, h => (e.uses_of_mem Δ h).within .operand
  | .binary _ _ l r, h =>
    (List.mem_append.1 h).elim (fun h ↦ (l.uses_of_mem Δ h).within .binaryLeft)
      fun h ↦ (r.uses_of_mem Δ h).within .binaryRight
  | .logical _ _ l r, h =>
    (List.mem_append.1 h).elim (fun h ↦ (l.uses_of_mem Δ h).within .logicalLeft)
      fun h ↦ (r.uses_of_mem Δ h).within .logicalRight
  | .var _ _, h => List.mem_singleton.1 h ▸ Part.var.uses
  | .assign _ _ e, h =>
    (List.mem_append.1 h).elim (fun h ↦ (e.uses_of_mem Δ h).within .value)
      fun h ↦ List.mem_singleton.1 h ▸ Part.assigned.uses
  | .call callee _ args, h =>
    (List.mem_append.1 h).elim (fun h ↦ (callee.uses_of_mem Δ h).within .callee) fun h ↦ by
      obtain ⟨e, he, huses⟩ := Expr.uses_of_memAll Δ args h
      exact huses.within (.argument he)
  | .get e _, h => (e.uses_of_mem Δ h).within .object
  | .set o _ e, h =>
    (List.mem_append.1 h).elim (fun h ↦ (e.uses_of_mem Δ h).within .setValue)
      fun h ↦ (o.uses_of_mem Δ h).within .setObject
  | .this _ _, h => List.mem_singleton.1 h ▸ Part.this.uses
  | .super _ _ _, h => List.mem_singleton.1 h ▸ Part.super.uses

theorem Expr.uses_of_memAll (Δ : Setting) :
    ∀ es : List Expr, id ∈ Expr.idsAll es → ∃ e ∈ es, (Code.expr e).Uses Δ id
  | [], h => nomatch h
  | e :: es, h =>
    (List.mem_append.1 h).elim (fun h ↦ ⟨e, List.mem_cons_self .., e.uses_of_mem Δ h⟩) fun h ↦ by
      obtain ⟨e', he', huses⟩ := Expr.uses_of_memAll Δ es h
      exact ⟨e', List.mem_cons_of_mem _ he', huses⟩

end

mutual

theorem Stmt.uses_of_mem (Δ : Setting) : ∀ s : Stmt, id ∈ s.ids → (Code.stmt s).Uses Δ id
  | .expression e, h => (e.uses_of_mem Δ h).within .expression
  | .print e, h => (e.uses_of_mem Δ h).within .print
  | .var _ none, h => nomatch h
  | .var _ (some e), h => (e.uses_of_mem _ h).within .initial
  | .block body, h => (Stmt.uses_of_memAll _ body h).within .block
  | .ifThen test s, h =>
    (List.mem_append.1 h).elim (fun h ↦ (test.uses_of_mem Δ h).within .ifTest)
      fun h ↦ (s.uses_of_mem Δ h).within .ifConsequent
  | .ifElse test s t, h =>
    (List.mem_append.1 h).elim (fun h ↦ (test.uses_of_mem Δ h).within .elseTest) fun h ↦
      (List.mem_append.1 h).elim (fun h ↦ (s.uses_of_mem Δ h).within .elseConsequent)
        fun h ↦ (t.uses_of_mem Δ h).within .elseAlternative
  | .loop test s, h =>
    (List.mem_append.1 h).elim (fun h ↦ (test.uses_of_mem Δ h).within .loopTest)
      fun h ↦ (s.uses_of_mem Δ h).within .loopBody
  | .function r, h => (r.uses_of_mem _ h).within .function
  | .return_ _ none, h => nomatch h
  | .return_ _ (some e), h => (e.uses_of_mem Δ h).within .returned
  | .class_ _ none methods, h => by
    obtain ⟨r, hr, huses⟩ := Routine.uses_of_memAll methods h
    exact (huses _).within (.method hr)
  | .class_ _ (some _) methods, h =>
    (List.mem_cons.1 h).elim (fun h ↦ h ▸ Part.superclass.uses) fun h ↦ by
      obtain ⟨r, hr, huses⟩ := Routine.uses_of_memAll methods h
      exact (huses _).within (.method hr)

theorem Stmt.uses_of_memAll (Δ : Setting) :
    ∀ ss : List Stmt, id ∈ Stmt.idsAll ss → (Code.stmts ss).Uses Δ id
  | [], h => nomatch h
  | s :: ss, h =>
    (List.mem_append.1 h).elim (fun h ↦ (s.uses_of_mem Δ h).within .head)
      fun h ↦ (Stmt.uses_of_memAll _ ss h).within .tail

theorem Routine.uses_of_mem (Δ : Setting) : ∀ r : Routine, id ∈ r.ids → (Code.routine r).Uses Δ id
  | ⟨_, _, body⟩, h => (Stmt.uses_of_memAll _ body h).within .body

theorem Routine.uses_of_memAll :
    ∀ rs : List Routine, id ∈ Routine.idsAll rs → ∃ r ∈ rs, ∀ Δ, (Code.routine r).Uses Δ id
  | [], h => nomatch h
  | r :: rs, h =>
    (List.mem_append.1 h).elim
      (fun h ↦ ⟨r, List.mem_cons_self .., fun Δ ↦ r.uses_of_mem Δ h⟩) fun h ↦ by
        obtain ⟨r', hr', huses⟩ := Routine.uses_of_memAll rs h
        exact ⟨r', List.mem_cons_of_mem _ hr', huses⟩

end

/-- The identities of code are those of the uses under it. -/
theorem Code.mem_ids_iff (Δ : Setting) (c : Code) : id ∈ c.ids ↔ c.Uses Δ id := by
  refine ⟨fun h ↦ ?_, fun ⟨_, _, hunder⟩ ↦ hunder.ids_subset (List.mem_singleton.2 rfl)⟩
  cases c with
  | stmts ss => exact Stmt.uses_of_memAll Δ ss h
  | stmt s => exact s.uses_of_mem Δ h
  | routine r => exact r.uses_of_mem Δ h
  | expr e => exact e.uses_of_mem Δ h
  | use id' x =>
    obtain rfl := List.mem_singleton.1 h
    exact ⟨Δ, x, .refl⟩

/-! ### An identity leads to one use -/

/-- Only one of several pieces of code has the identity, if none comes twice in all of them. -/
theorem eq_of_mem_flatMap {α : Type} {ids : α → List NodeId} {as : List α}
    (has : (as.flatMap ids).Nodup) {a a' : α} (ha : a ∈ as) (ha' : a' ∈ as) (hid : id ∈ ids a)
    (hid' : id ∈ ids a') : a = a' := by
  obtain ⟨-, hapart⟩ := List.nodup_flatMap.1 has
  have : Std.Symm (Function.onFun List.Disjoint ids) := ⟨fun _ _ ↦ List.disjoint_symm⟩
  by_contra hne
  exact hapart.forall ha ha' hne hid hid'

/-- Parts of code with an identity in common are one part. -/
theorem Part.eq_of_mem_ids (part : Part Δ c Δ₁ c₁) (part' : Part Δ c Δ₂ c₂) (hc : c.ids.Nodup)
    (hid : id ∈ c₁.ids) (hid' : id ∈ c₂.ids) : Δ₁ = Δ₂ ∧ c₁ = c₂ := by
  have apart {a b : List NodeId} (h : (a ++ b).Nodup) (ha : id ∈ a) (hb : id ∈ b) :
      Δ₁ = Δ₂ ∧ c₁ = c₂ := (List.disjoint_of_nodup_append h ha hb).elim
  cases part with
  | argument mem => cases part' with
    | callee => exact apart hc hid' ((Expr.ids_sublist mem).subset hid)
    | argument mem' =>
      have hargs := (List.nodup_append.1 hc).2.1
      rw [Expr.idsAll_eq_flatMap] at hargs
      obtain rfl := eq_of_mem_flatMap hargs mem mem' hid hid'
      exact ⟨rfl, rfl⟩
  | callee => cases part' with
    | callee => exact ⟨rfl, rfl⟩
    | argument mem => exact apart hc hid ((Expr.ids_sublist mem).subset hid')
  | method mem => cases part' with
    | superclass => exact apart hc hid' ((Routine.ids_sublist mem).subset hid)
    | method mem' =>
      have hmethods := (List.nodup_append.1 hc).2.1
      rw [Routine.idsAll_eq_flatMap] at hmethods
      obtain rfl := eq_of_mem_flatMap hmethods mem mem' hid hid'
      exact ⟨rfl, rfl⟩
  | superclass => cases part' with
    | superclass => exact ⟨rfl, rfl⟩
    | method mem => exact apart hc hid ((Routine.ids_sublist mem).subset hid')
  | elseTest => cases part' with
    | elseTest => exact ⟨rfl, rfl⟩
    | elseConsequent => exact apart hc hid (List.mem_append_left _ hid')
    | elseAlternative => exact apart hc hid (List.mem_append_right _ hid')
  | elseConsequent => cases part' with
    | elseTest => exact apart hc hid' (List.mem_append_left _ hid)
    | elseConsequent => exact ⟨rfl, rfl⟩
    | elseAlternative => exact apart (List.nodup_append.1 hc).2.1 hid hid'
  | elseAlternative => cases part' with
    | elseTest => exact apart hc hid' (List.mem_append_right _ hid)
    | elseConsequent => exact apart (List.nodup_append.1 hc).2.1 hid' hid
    | elseAlternative => exact ⟨rfl, rfl⟩
  | _ =>
    -- There is no other part, or there is one, before or behind this one.
    cases part' <;> first | exact ⟨rfl, rfl⟩ | exact apart hc hid hid' | exact apart hc hid' hid

/-- Of two pieces of code with an identity in common one is under the other. -/
theorem Under.nested (under : Under Δ c Δ₁ c₁) (under' : Under Δ c Δ₂ c₂) (hc : c.ids.Nodup)
    (hid : id ∈ c₁.ids) (hid' : id ∈ c₂.ids) : Under Δ₁ c₁ Δ₂ c₂ ∨ Under Δ₂ c₂ Δ₁ c₁ := by
  induction under with
  | refl => exact Or.inl under'
  | step part rest ih =>
    cases under' with
    | refl => exact Or.inr (.step part rest)
    | step part' rest' =>
      obtain ⟨rfl, rfl⟩ :=
        part.eq_of_mem_ids part' hc (rest.ids_subset hid) (rest'.ids_subset hid')
      exact ih rest' (hc.sublist part.ids_sublist) hid

/-- Nothing is under the use of a name. -/
theorem Under.eq_of_use {x : String} (h : Under Δ (.use id x) Δ₁ c₁) :
    Δ₁ = Δ ∧ c₁ = .use id x := by
  cases h with
  | refl => exact ⟨rfl, rfl⟩
  | step part _ => cases part

theorem Under.use_eq {x x' : String} (under : Under Δ c Δ₁ (.use id x))
    (under' : Under Δ c Δ₂ (.use id x')) (hc : c.ids.Nodup) : Δ₁ = Δ₂ ∧ x = x' := by
  have hid (x : String) : id ∈ (Code.use id x).ids := List.mem_singleton.2 rfl
  rcases under.nested under' hc (hid x) (hid x') with h | h
  · obtain ⟨rfl, hx⟩ := h.eq_of_use
    exact ⟨rfl, (Code.use.inj hx).2.symm⟩
  · obtain ⟨rfl, hx⟩ := h.eq_of_use
    exact ⟨rfl, (Code.use.inj hx).2⟩

theorem Code.existsUnique_use (Δ : Setting) (c : Code) (hc : c.ids.Nodup) (hid : id ∈ c.ids) :
    ∃! use : Setting × String, Under Δ c use.1 (.use id use.2) := by
  obtain ⟨Δ₁, x, hunder⟩ := (c.mem_ids_iff Δ).1 hid
  refine ⟨(Δ₁, x), hunder, fun ⟨Δ₂, x'⟩ hunder' ↦ ?_⟩
  obtain ⟨rfl, rfl⟩ := hunder.use_eq hunder' hc
  rfl

/-! ### Identities of what is read -/

namespace Reading

/-- No two uses of names in what has been read have one identity. -/
theorem nodup_ids (tokens : List Token) : (Stmt.idsAll (ofTokens tokens).statements).Nodup := by
  obtain ⟨⟨w, hw⟩, -⟩ := Grammar.reads_declarations _ (Cursor.ofTokens tokens) rfl
  exact hw.nodup

/-- The identities of what has been read have been drawn for it. -/
theorem lt_idCount (tokens : List Token) :
    ∀ id ∈ Stmt.idsAll (ofTokens tokens).statements, id < (ofTokens tokens).idCount := by
  obtain ⟨⟨w, hw⟩, -⟩ := Grammar.reads_declarations _ (Cursor.ofTokens tokens) rfl
  exact fun id hid ↦ (hw.range id hid).2

/-- Whatever the tokens are, no identity stands twice in the statements that are read, and each has
been drawn. They are the identities of the uses of names, each that of one use, so that a table with
one entry for an identity has one for a use. -/
theorem one_use_of_identity (tokens : List Token) :
    (Stmt.idsAll (ofTokens tokens).statements).Nodup ∧
      (∀ id ∈ Stmt.idsAll (ofTokens tokens).statements, id < (ofTokens tokens).idCount ∧
        ∃! use : Setting × String, Site (ofTokens tokens).statements use.1 (.use id use.2)) ∧
      ∀ Δ id x, Site (ofTokens tokens).statements Δ (.use id x) →
        id ∈ Stmt.idsAll (ofTokens tokens).statements := by
  let code := Code.stmts (ofTokens tokens).statements
  have hnodup : code.ids.Nodup := nodup_ids tokens
  refine ⟨hnodup, fun id hid ↦ ⟨lt_idCount tokens id hid, ?_⟩, fun Δ id x hsite ↦ ?_⟩
  · exact code.existsUnique_use [] hnodup hid
  · exact (code.mem_ids_iff []).2 ⟨Δ, x, hsite⟩

/-- `a = b; (c) = d; e f; class G < H { }`. -/
def faultyAssignments : List Token :=
  [⟨.identifier, "a", 1⟩, ⟨.equal, "=", 1⟩, ⟨.identifier, "b", 1⟩, ⟨.semicolon, ";", 1⟩,
    ⟨.leftParen, "(", 2⟩, ⟨.identifier, "c", 2⟩, ⟨.rightParen, ")", 2⟩, ⟨.equal, "=", 2⟩,
    ⟨.identifier, "d", 2⟩, ⟨.semicolon, ";", 2⟩, ⟨.identifier, "e", 3⟩, ⟨.identifier, "f", 3⟩,
    ⟨.semicolon, ";", 3⟩, ⟨.class_, "class", 4⟩, ⟨.identifier, "G", 4⟩, ⟨.less, "<", 4⟩,
    ⟨.identifier, "H", 4⟩, ⟨.leftBrace, "\x7b", 4⟩, ⟨.rightBrace, "\x7d", 4⟩]

/-- The identities of `a`, of the value `d` and of the statement `e f` are drawn and left out. -/
theorem one_use_of_identity_faultyAssignments :
    Stmt.idsAll (ofTokens faultyAssignments).statements = [1, 2, 3, 6] ∧
      (ofTokens faultyAssignments).idCount = 7 ∧
      6 < (ofTokens faultyAssignments).idCount ∧
      ∃! use : Setting × String,
        Site (ofTokens faultyAssignments).statements use.1 (.use 6 use.2) := by
  have hids : Stmt.idsAll (ofTokens faultyAssignments).statements = [1, 2, 3, 6] := by
    decide +kernel
  obtain ⟨-, hone, -⟩ := one_use_of_identity faultyAssignments
  exact ⟨hids, by decide +kernel, hone 6 (hids ▸ by decide)⟩

end Reading

end Lox
