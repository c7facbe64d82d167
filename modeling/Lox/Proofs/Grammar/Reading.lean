import Lox.Proofs.Grammar.CompleteStatements
import Lox.Proofs.Grammar.SoundStatements

/-!
The parser reads the grammar: it finds no error in exactly the token lists that the grammar
derives, and what it then reads is the one tree whose derivation gives each `else` to the nearest
`if`.
-/

set_option autoImplicit false

namespace Lox

namespace Grammar

/-- A nearest derivation is a derivation. -/
theorem Symbol.Derives.plainly {α : Type} {S : Symbol α} {w : List Token} {v : α}
    (h : Derives true S w v) : Derives false S w v := by
  induction h with
  | program _ eof ih => exact .program ih eof
  | nothing => exact .nothing
  | another _ _ ih ih' => exact .another ih ih'
  | classDecl class_ name _ left _ right ih ih' => exact .classDecl class_ name ih left ih' right
  | funDecl fun_ _ ih => exact .funDecl fun_ ih
  | varDeclaration _ ih => exact .varDeclaration ih
  | plain _ ih => exact .plain ih
  | noHeritage => exact .noHeritage
  | extending less name => exact .extending less name
  | noFunction => exact .noFunction
  | anotherFunction _ _ ih ih' => exact .anotherFunction ih ih'
  | function name left _ right _ ih ih' => exact .function name left ih right ih'
  | noParameter => exact .noParameter
  | parameters _ ih => exact .parameters ih
  | oneName name => exact .oneName name
  | anotherName name comma _ ih => exact .anotherName name comma ih
  | undefined var name semicolon => exact .undefined var name semicolon
  | defined var name equal value semicolon => exact .defined var name equal value semicolon
  | exprStmt value semicolon => exact .exprStmt value semicolon
  | expression _ ih => exact .expression ih
  | printStmt print value semicolon => exact .printStmt print value semicolon
  | returnStmt return_ _ semicolon ih => exact .returnStmt return_ ih semicolon
  | blockStmt _ ih => exact .blockStmt ih
  | whileStmt while_ left test right _ ih => exact .whileStmt while_ left test right ih
  | forStmt for_ left _ _ semicolon _ right _ ih ih' ih'' ih₃ =>
    exact .forStmt for_ left ih ih' semicolon ih'' right ih₃
  | ifThen if_ left test right _ ih => exact .ifThen if_ left test right ih
  | ifElse if_ left test right _ _ else_ _ ih ih' =>
    exact .ifElse if_ left test right ih (fun h ↦ nomatch h) else_ ih'
  | firstVar _ ih => exact .firstVar ih
  | firstExpr _ ih => exact .firstExpr ih
  | noFirst semicolon => exact .noFirst semicolon
  | block left _ right ih => exact .block left ih right
  | absent => exact .absent
  | present value => exact .present value

/-- What has no operators is an expression. -/
theorem derives_primary {w : List Token} {e : Expr} (h : ExprSymbol.Derives .primary w e) :
    ExprSymbol.Derives .expression w e := by
  have hlevel {k : Level} (h : k.operand.Derives w e) : (ExprSymbol.level k).Derives w e := by
    simpa using ExprSymbol.Derives.level h .lastOperand
  have hcall : ExprSymbol.call.Derives w e := by
    simpa using ExprSymbol.Derives.call h .lastSuffix
  have hfactor := hlevel (k := .factor) (.unsigned hcall)
  have hterm := hlevel (k := .term) hfactor
  have hcomparison := hlevel (k := .comparison) hterm
  have hequality := hlevel (k := .equality) hcomparison
  have hconjunction := hlevel (k := .conjunction) hequality
  exact .simple (hlevel (k := .disjunction) hconjunction)

/-- A name alone is an expression. -/
theorem derives_name {n : Token} (hn : n.kind = .identifier) :
    ExprSymbol.Derives .expression [n] (.var 0 (nameOf n)) :=
  derives_primary (.named hn)

theorem ExprSymbol.Derives.unended {α : Type} {S : ExprSymbol α} {w : List Token} {v : α}
    (h : Derives S w v) : ∀ t ∈ w, t.kind ≠ .endOfInput := by
  induction h with
  | @operator k l t w w' r e join operator _ _ ih ih' =>
    have ht : t.kind ≠ .endOfInput := by
      rintro heq
      rw [heq] at operator
      cases k <;> simp [Level.operators] at operator
    simpa [ht, or_imp, forall_and] using ⟨ih, ih'⟩
  | @sign t w op e sign _ ih =>
    have ht : t.kind ≠ .endOfInput := by
      rintro heq
      rw [heq] at sign
      simp [signs] at sign
    simpa [ht] using ih
  | literal literal =>
    rintro t ht heq
    cases List.mem_singleton.1 ht
    rw [heq] at literal
    cases literal
  | _ => simp_all [or_imp]

/-- Only a program has an end of input in it. -/
def Symbol.Unended : {α : Type} → Symbol α → List Token → Prop
  | _, .program, _ => True
  | _, _, w => ∀ t ∈ w, t.kind ≠ .endOfInput

theorem Symbol.Derives.unended {nearest : Bool} {α : Type} {S : Symbol α} {w : List Token} {v : α}
    (h : Derives nearest S w v) : Unended S w := by
  induction h with
  | program => trivial
  | present value => exact value.unended
  | defined _ _ _ value _ | exprStmt value _ | printStmt _ value _ | whileStmt _ _ value _ _ _
  | ifThen _ _ value _ _ _ | ifElse _ _ value _ _ _ _ _ _ =>
    have hvalue := value.unended
    simp_all [Unended, or_imp]
  | _ => simp_all [Unended, or_imp]

/-- A program is declarations and the end of input. -/
def Symbol.Ended (nearest : Bool) : {α : Type} → Symbol α → List Token → α → Prop
  | _, .program, w, ss => ∃ u t, w = u ++ [t] ∧ t.kind = .endOfInput ∧
      Derives nearest .declarations u ss
  | _, _, _, _ => True

theorem Symbol.Derives.ended {nearest : Bool} {α : Type} {S : Symbol α} {w : List Token} {v : α}
    (h : Derives nearest S w v) : Ended nearest S w v := by
  induction h with
  | @program w ss t body eof => exact ⟨w, t, rfl, eof, body⟩
  | _ => trivial

theorem derives_program_iff {nearest : Bool} {tokens : List Token} {eof : Token} {ss : List Stmt}
    (heof : eof.kind = .endOfInput) :
    Symbol.Derives nearest .program (tokens ++ [eof]) ss ↔
      Symbol.Derives nearest .declarations tokens ss := by
  refine ⟨fun h ↦ ?_, fun h ↦ .program h heof⟩
  obtain ⟨u, t, hw, -, hu⟩ := h.ended
  obtain ⟨rfl, -⟩ := List.append_inj' hw rfl
  exact hu

end Grammar

theorem Cursor.rest_ofTokens {tokens : List Token} {eof : Token}
    (htokens : ∀ t ∈ tokens, t.kind ≠ .endOfInput) (heof : eof.kind = .endOfInput) :
    (Cursor.ofTokens (tokens ++ [eof])).rest = tokens := by
  change (tokens ++ [eof]).takeWhile _ = tokens
  rw [List.takeWhile_append_of_pos fun t ht ↦ decide_eq_true (htokens t ht)]
  simp [heof]

/-- Tokens before an end of input are put before what is read up to it. -/
theorem Cursor.ofTokens_append {tokens : List Token} (htokens : ∀ t ∈ tokens, t.kind ≠ .endOfInput)
    (others : List Token) :
    Cursor.ofTokens (tokens ++ others) =
      { Cursor.ofTokens others with rest := tokens ++ (Cursor.ofTokens others).rest } := by
  have hfind : tokens.find? (fun t ↦ decide (t.kind = .endOfInput)) = none :=
    List.find?_eq_none.2 fun t ht ↦ by simpa using htokens t ht
  simp only [Cursor.ofTokens, List.find?_append, hfind, Option.none_or]
  rw [List.takeWhile_append_of_pos fun t ht ↦ decide_eq_true (htokens t ht)]

namespace Reading

open Grammar

/-- What is read without an error has a nearest derivation. -/
theorem derives_of_clean {tokens : List Token} {eof : Token}
    (htokens : ∀ t ∈ tokens, t.kind ≠ .endOfInput) (heof : eof.kind = .endOfInput)
    (hclean : (Reading.ofTokens (tokens ++ [eof])).diagnostics = []) :
    Symbol.Derives true .declarations tokens
      (Stmt.unnumberedAll (Reading.ofTokens (tokens ++ [eof])).statements) := by
  obtain ⟨⟨w, hw⟩, hend⟩ := reads_declarations _ (Cursor.ofTokens (tokens ++ [eof])) rfl
  have hsplit := hw.split
  rw [hend, List.append_nil, Cursor.rest_ofTokens htokens heof] at hsplit
  have hderived := hw.derived (congrArg List.length hclean)
  rw [← hsplit] at hderived
  exact hderived

/-- What has a nearest derivation is read without an error, as its tree. -/
theorem clean_of_derives {tokens : List Token} {eof : Token} {ss : List Stmt}
    (htokens : ∀ t ∈ tokens, t.kind ≠ .endOfInput) (heof : eof.kind = .endOfInput)
    (h : Symbol.Derives true .declarations tokens ss) :
    (Reading.ofTokens (tokens ++ [eof])).diagnostics = [] ∧
      Stmt.unnumberedAll (Reading.ofTokens (tokens ++ [eof])).statements = ss := by
  have hcomplete : ∀ c : Cursor, c.rest = tokens →
      Stmt.unnumberedAll (declarations c).1 = ss ∧ (declarations c).2.reports = c.reports :=
    h.complete.2
  obtain ⟨htree, hreports⟩ := hcomplete _ (Cursor.rest_ofTokens htokens heof)
  exact ⟨hreports, htree⟩

/-- The parser accepts what the grammar derives, and its tree is that of the only derivation in
which each `else` belongs to the nearest `if`. Whatever else it is given, it reports an error. -/
theorem reads_grammar {tokens : List Token} {eof : Token}
    (htokens : ∀ t ∈ tokens, t.kind ≠ .endOfInput) (heof : eof.kind = .endOfInput) :
    ((Reading.ofTokens (tokens ++ [eof])).diagnostics = [] ↔
      ∃ ss, Symbol.Derives false .program (tokens ++ [eof]) ss) ∧
    ∀ ss, Symbol.Derives true .program (tokens ++ [eof]) ss ↔
      (Reading.ofTokens (tokens ++ [eof])).diagnostics = [] ∧
        Stmt.unnumberedAll (Reading.ofTokens (tokens ++ [eof])).statements = ss := by
  refine ⟨⟨fun hclean ↦ ?_, ?_⟩, fun ss ↦ ⟨fun h ↦ ?_, ?_⟩⟩
  · exact ⟨_, .program (derives_of_clean htokens heof hclean).plainly heof⟩
  · rintro ⟨ss, h⟩
    obtain ⟨ss', h'⟩ := h.nearest
    exact (clean_of_derives htokens heof ((derives_program_iff heof).1 h')).1
  · exact clean_of_derives htokens heof ((derives_program_iff heof).1 h)
  · rintro ⟨hclean, hss⟩
    rw [derives_program_iff heof, ← hss]
    exact derives_of_clean htokens heof hclean

/-- In `if (a) if (b) c; else d;` it is the inner `if` that has the `else`. -/
def danglingElse : List Token :=
  [⟨.if_, "if", 1⟩, ⟨.leftParen, "(", 1⟩, ⟨.identifier, "a", 1⟩, ⟨.rightParen, ")", 1⟩,
    ⟨.if_, "if", 1⟩, ⟨.leftParen, "(", 1⟩, ⟨.identifier, "b", 1⟩, ⟨.rightParen, ")", 1⟩,
    ⟨.identifier, "c", 1⟩, ⟨.semicolon, ";", 1⟩, ⟨.else_, "else", 1⟩, ⟨.identifier, "d", 1⟩,
    ⟨.semicolon, ";", 1⟩]

theorem reads_danglingElse :
    (Reading.ofTokens (danglingElse ++ [⟨.endOfInput, "", 1⟩])).diagnostics = [] ∧
      Stmt.unnumberedAll (Reading.ofTokens (danglingElse ++ [⟨.endOfInput, "", 1⟩])).statements =
        [.ifThen (.var 0 ⟨"a", 1⟩) (.ifElse (.var 0 ⟨"b", 1⟩) (.expression (.var 0 ⟨"c", 1⟩))
          (.expression (.var 0 ⟨"d", 1⟩)))] := by
  refine ((reads_grammar (by decide) rfl).2 _).1 (.program ?_ rfl)
  have hname {s : String} := derives_name (n := ⟨.identifier, s, 1⟩) rfl
  have hinner : Symbol.Derives true (.statement false) _ _ :=
    .ifElse (k := ⟨.if_, "if", 1⟩) rfl
      (l := ⟨.leftParen, "(", 1⟩) rfl (hname (s := "b")) (r := ⟨.rightParen, ")", 1⟩) rfl
      (.expression (.exprStmt (hname (s := "c")) (t := ⟨.semicolon, ";", 1⟩) rfl)) (fun _ ↦ rfl)
      (j := ⟨.else_, "else", 1⟩) rfl
      (.expression (.exprStmt (hname (s := "d")) (t := ⟨.semicolon, ";", 1⟩) rfl))
  exact .another (.plain (.ifThen rfl rfl (hname (s := "a")) rfl hinner)) .nothing

end Reading

end Lox
