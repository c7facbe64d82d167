import Lox.Program
import Lox.Proofs.Grammar.CompleteStatements
import Lox.Proofs.Grammar.ShiftedStatements

/-!
Two sound texts with a line break between them are read as the statements of the first and those of
the second, later: the first text ends with a whole statement, and no statement begins with an
`else` that could go on with it.
-/

set_option autoImplicit false

namespace Lox

/-! ### Nothing is shifted by nothing -/

theorem Name.shift_zero (n : Name) : n.shift ⟨0, 0⟩ = n := rfl

theorem Superclass.shift_zero (s : Superclass) : s.shift ⟨0, 0⟩ = s := rfl

mutual

theorem Expr.shift_zero : (e : Expr) → e.shift ⟨0, 0⟩ = e
  | .literal _ | .var _ _ | .this _ _ | .super _ _ _ => rfl
  | .grouping e => congrArg Expr.grouping e.shift_zero
  | .unary op line e => congrArg (Expr.unary op line) e.shift_zero
  | .binary op line l r => congrArg₂ (Expr.binary op line) l.shift_zero r.shift_zero
  | .logical op line l r => congrArg₂ (Expr.logical op line) l.shift_zero r.shift_zero
  | .assign id name e => congrArg (Expr.assign id name) e.shift_zero
  | .call callee line args =>
    congrArg₂ (fun e es ↦ Expr.call e line es) callee.shift_zero (Expr.shiftAll_zero args)
  | .get e name => congrArg (fun e ↦ Expr.get e name) e.shift_zero
  | .set o name e => congrArg₂ (fun o e ↦ Expr.set o name e) o.shift_zero e.shift_zero

theorem Expr.shiftAll_zero : (es : List Expr) → Expr.shiftAll ⟨0, 0⟩ es = es
  | [] => rfl
  | e :: es => congrArg₂ List.cons e.shift_zero (Expr.shiftAll_zero es)

end

theorem Expr.map_shift_zero (e : Option Expr) : e.map (Expr.shift ⟨0, 0⟩) = e := by
  cases e with
  | none => rfl
  | some e => exact congrArg some e.shift_zero

mutual

theorem Stmt.shift_zero : (s : Stmt) → s.shift ⟨0, 0⟩ = s
  | .expression e => congrArg Stmt.expression e.shift_zero
  | .print e => congrArg Stmt.print e.shift_zero
  | .var name initial => congrArg (Stmt.var name) (Expr.map_shift_zero initial)
  | .block body => congrArg Stmt.block (Stmt.shiftAll_zero body)
  | .ifThen test s => congrArg₂ Stmt.ifThen test.shift_zero s.shift_zero
  | .ifElse test s t => by
    change Stmt.ifElse _ _ _ = _
    rw [test.shift_zero, s.shift_zero, t.shift_zero]
  | .loop test s => congrArg₂ Stmt.loop test.shift_zero s.shift_zero
  | .function r => congrArg Stmt.function r.shift_zero
  | .return_ line value => congrArg (Stmt.return_ line) (Expr.map_shift_zero value)
  | .class_ name superclass methods => by
    change Stmt.class_ _ (superclass.map _) _ = _
    rw [Routine.shiftAll_zero methods, show superclass.map (Superclass.shift ⟨0, 0⟩) = superclass by
      cases superclass <;> rfl]
    rfl

theorem Stmt.shiftAll_zero : (ss : List Stmt) → Stmt.shiftAll ⟨0, 0⟩ ss = ss
  | [] => rfl
  | s :: ss => congrArg₂ List.cons s.shift_zero (Stmt.shiftAll_zero ss)

theorem Routine.shift_zero : (r : Routine) → r.shift ⟨0, 0⟩ = r
  | ⟨name, names, body⟩ => by
    change Routine.mk name (names.map fun n ↦ n) (Stmt.shiftAll ⟨0, 0⟩ body) = _
    rw [Stmt.shiftAll_zero body, List.map_id']

theorem Routine.shiftAll_zero : (rs : List Routine) → Routine.shiftAll ⟨0, 0⟩ rs = rs
  | [] => rfl
  | r :: rs => congrArg₂ List.cons r.shift_zero (Routine.shiftAll_zero rs)

end

/-! ### Reading -/

namespace Reading

open Grammar

/-- What is read from the tokens of a text. -/
abbrev ofSource (source : String) : Reading := ofTokens (Scan.tokens source)

/-- How much later the second text is read. -/
def shiftBehind (first : String) : Shift :=
  ⟨(ofSource first).idCount, Scan.newlines first.toList + 1⟩

/-- A sound text does not begin with `else`. -/
theorem head_ne_else {source : String} (h : (ofSource source).diagnostics = []) :
    ∀ t ∈ (Cursor.ofTokens (Scan.tokens source)).rest.head?, t.kind ≠ .else_ := by
  intro t ht
  obtain ⟨⟨w, hw⟩, hend⟩ := reads_declarations _ (Cursor.ofTokens (Scan.tokens source)) rfl
  have hsplit := hw.split
  rw [hend, List.append_nil] at hsplit
  rcases (hw.derived (congrArg List.length h)).first with rfl | ⟨t', u, rfl, ht'⟩
  · rw [hsplit] at ht
    cases ht
  · rw [hsplit] at ht
    cases ht
    exact fun helse ↦ ht' (by rw [helse]; decide)

/-- Two sound texts are read one after the other. -/
theorem ofSource_join {first second : String} (hscan : Scan.diagnostics first = [])
    (hread : (ofSource first).diagnostics = []) (hread' : (ofSource second).diagnostics = []) :
    ofSource (first ++ "\n" ++ second) =
      ⟨(ofSource first).statements ++
          Stmt.shiftAll (shiftBehind first) (ofSource second).statements,
        [], (ofSource second).idCount + (ofSource first).idCount⟩ := by
  let lines := Scan.newlines first.toList + 1
  let c₁ := Cursor.ofTokens (Scan.tokens first)
  let c₂ := Cursor.ofTokens (Scan.tokens second)
  let c := Cursor.ofTokens (Scan.tokens (first ++ "\n" ++ second))
  have hrest : c.rest = c₁.rest ++ c₂.rest.map (Token.later lines) :=
    Scan.ofTokens_join hscan second
  -- The first text is read where it is, with the tokens of the second behind it.
  let μ₁ : Elsewhere := ⟨⟨0, 0⟩, [], c₂.rest.map (Token.later lines), c.endLine, False⟩
  have hmoved : Moved μ₁ c₁ c :=
    ⟨by rw [hrest, show Token.later μ₁.lines = id from rfl, List.map_id], rfl, rfl, rfl, False.elim⟩
  have helse : ∀ t ∈ μ₁.behind.head?, t.kind ≠ .else_ := by
    intro t ht
    change t ∈ (c₂.rest.map _).head? at ht
    rw [List.head?_map] at ht
    obtain ⟨t', ht', rfl⟩ := Option.map_eq_some_iff.1 ht
    exact head_ne_else hread' t' ht'
  obtain ⟨m, hm, hreads⟩ := declarations_shifted helse _ hmoved rfl (congrArg List.length hread)
  obtain ⟨-, hend⟩ := reads_declarations _ c₁ rfl
  -- The second text is read behind it.
  let μ₂ : Elsewhere := ⟨shiftBehind first, [], [], m.endLine, False⟩
  have hmoved' : Moved μ₂ c₂ m := by
    refine ⟨?_, ?_, ?_, rfl, False.elim⟩
    · rw [hm.rest, hend, List.map_nil, List.nil_append]
      exact (List.append_nil _).symm
    · exact hm.nextId.trans (Nat.zero_add _).symm
    · rw [hm.reports, show (declarations c₁).2.reports = [] from hread]
      rfl
  obtain ⟨m', hm', hreads'⟩ := declarations_shifted (μ := μ₂) nofun _ hmoved' rfl
    (congrArg List.length hread')
  obtain ⟨-, hend'⟩ := reads_declarations _ c₂ rfl
  have hdone : declarations m' = ([], m') := by
    rw [declarations, dif_pos]
    rw [Cursor.size, hm'.rest, hend']
    rfl
  have hjoined : declarations c = ((ofSource first).statements ++
      Stmt.shiftAll (shiftBehind first) (ofSource second).statements, m') := by
    rw [hreads, hreads', hdone, List.append_nil]
    exact congrArg (fun ss ↦ (ss ++ _, m')) (Stmt.shiftAll_zero _)
  change Reading.mk (declarations c).1 (declarations c).2.reports (declarations c).2.nextId = _
  rw [hjoined, hm'.reports, hm'.nextId, show (declarations c₂).2.reports = [] from hread']
  rfl

end Reading

end Lox
