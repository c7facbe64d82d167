import Lox.Proofs.Grammar.Reading
import Lox.Proofs.Outlines.Words
import Lox.Proofs.Printing.Reading
import Lox.Proofs.Token.Respacing

/-!
Leaves of trees that were read from a text. Every name and number of such a tree is a lexeme of the
text (`Symbol.Derives.scanned`), so the name is not a keyword and the number has no sign. Without
strings and infinite numbers the leaves are legible, and the printed tree determines the program.
-/

set_option autoImplicit false

namespace Lox

open Scan Grammar

/-- A leaf that scanning can find. -/
def Leaf.Scanned : Leaf → Prop
  | .name text => Lexeme .identifier text.toList
  | .literal (.number value) => ∃ cs, Lexeme (.number value) cs
  | .literal _ => True

/-- Tokens that scanning can find. -/
abbrev AllLexemes (w : List Token) : Prop := ∀ t ∈ w, Lexeme t.kind t.lexeme.toList

namespace Grammar

theorem scanned_nameOf {n : Token} (hn : n.kind = .identifier)
    (h : Lexeme n.kind n.lexeme.toList) : (Leaf.name (nameOf n).text).Scanned := by
  rw [hn] at h
  exact h

theorem scanned_literal {t : Token} {value : Literal} (hvalue : literal? t.kind = some value)
    (h : Lexeme t.kind t.lexeme.toList) : (Leaf.literal value).Scanned := by
  unfold literal? at hvalue
  split at hvalue <;> cases hvalue
  next value hkind =>
    rw [hkind] at h
    exact ⟨_, h⟩
  all_goals trivial

/-- The leaves of a tree are scanned, if those of the tree on the left of a repetition are. -/
def ExprSymbol.Scanned : {α : Type} → ExprSymbol α → α → Prop
  | _, .further _ l, v => (∀ x ∈ l.leaves, x.Scanned) → ∀ x ∈ v.leaves, x.Scanned
  | _, .suffixes e, v => (∀ x ∈ e.leaves, x.Scanned) → ∀ x ∈ v.leaves, x.Scanned
  | _, .arguments, es => ∀ x ∈ Expr.leavesAll es, x.Scanned
  | _, .expressions, es => ∀ x ∈ Expr.leavesAll es, x.Scanned
  | _, .expression, e => ∀ x ∈ e.leaves, x.Scanned
  | _, .level _, e => ∀ x ∈ e.leaves, x.Scanned
  | _, .unary, e => ∀ x ∈ e.leaves, x.Scanned
  | _, .call, e => ∀ x ∈ e.leaves, x.Scanned
  | _, .primary, e => ∀ x ∈ e.leaves, x.Scanned

theorem ExprSymbol.Scanned.operand {k : Level} {e : Expr} (h : Scanned k.operand e) :
    ∀ x ∈ e.leaves, x.Scanned := by
  cases k <;> exact h

theorem ExprSymbol.Derives.scanned {α : Type} {S : ExprSymbol α} {w : List Token} {v : α}
    (h : Derives S w v) (hw : AllLexemes w) : S.Scanned v := by
  induction h with
  | assign name equal _ ih =>
    simp only [List.forall_mem_cons] at hw
    exact List.forall_mem_cons.2 ⟨scanned_nameOf name hw.1, ih hw.2.2⟩
  | set _ dot name equal _ ih ih' =>
    simp only [List.forall_mem_append, List.forall_mem_cons] at hw
    exact List.forall_mem_cons.2 ⟨scanned_nameOf name hw.2.2.1,
      List.forall_mem_append.2 ⟨ih hw.1, ih' hw.2.2.2.2⟩⟩
  | simple _ ih => exact ih hw
  | level _ _ ih ih' =>
    obtain ⟨hfirst, hothers⟩ := List.forall_mem_append.1 hw
    exact ih' hothers (ih hfirst).operand
  | lastOperand => exact id
  | operator operator _ _ ih ih' =>
    intro hl
    simp only [List.forall_mem_append, List.forall_mem_cons] at hw
    refine ih' hw.2.2 ?_
    obtain ⟨op, rfl⟩ | ⟨op, rfl⟩ := Level.operators_cases operator
    · exact List.forall_mem_append.2 ⟨hl, (ih hw.2.1).operand⟩
    · exact List.forall_mem_append.2 ⟨hl, (ih hw.2.1).operand⟩
  | sign _ _ ih => exact ih (List.forall_mem_cons.1 hw).2
  | unsigned _ ih => exact ih hw
  | call _ _ ih ih' =>
    obtain ⟨hfirst, hothers⟩ := List.forall_mem_append.1 hw
    exact ih' hothers (ih hfirst)
  | lastSuffix => exact id
  | application _ _ _ _ ih ih' =>
    intro he
    simp only [List.forall_mem_append, List.forall_mem_cons] at hw
    exact ih' hw.2.2.2 (List.forall_mem_append.2 ⟨he, ih hw.2.1⟩)
  | property _ name _ ih =>
    intro he
    simp only [List.forall_mem_cons] at hw
    exact ih hw.2.2 (List.forall_mem_cons.2 ⟨scanned_nameOf name hw.2.1, he⟩)
  | noArgument => exact nofun
  | arguments _ ih => exact ih hw
  | oneExpression _ ih => exact List.forall_mem_append.2 ⟨ih hw, nofun⟩
  | anotherExpression _ _ _ ih ih' =>
    simp only [List.forall_mem_append, List.forall_mem_cons] at hw
    exact List.forall_mem_append.2 ⟨ih hw.1, ih' hw.2.2⟩
  | literal literal =>
    exact List.forall_mem_singleton.2 (scanned_literal literal (hw _ List.mem_cons_self))
  | this _ => exact nofun
  | named name =>
    exact List.forall_mem_singleton.2 (scanned_nameOf name (hw _ List.mem_cons_self))
  | grouping _ _ _ ih =>
    simp only [List.forall_mem_append, List.forall_mem_cons] at hw
    exact ih hw.2.1
  | super _ _ name =>
    simp only [List.forall_mem_cons] at hw
    exact List.forall_mem_singleton.2 (scanned_nameOf name hw.2.2.1)

/-! ### Statements -/

def Symbol.leaves : {α : Type} → Symbol α → α → List Leaf
  | _, .program, ss => Stmt.leavesAll ss
  | _, .declarations, ss => Stmt.leavesAll ss
  | _, .declaration, s => s.leaves
  | _, .heritage, s => Superclass.leavesOf s
  | _, .functions, rs => Routine.leavesAll rs
  | _, .function, r => r.leaves
  | _, .parameters, ns => ns.map fun n ↦ .name n.text
  | _, .names, ns => ns.map fun n ↦ .name n.text
  | _, .varDecl, s => s.leaves
  | _, .statement _, s => s.leaves
  | _, .exprStmt, s => s.leaves
  | _, .initializer, s => (s.map Stmt.leaves).getD []
  | _, .block, ss => Stmt.leavesAll ss
  | _, .optional, e => Expr.leavesOf e

/-- The test that a `for` does not have is a literal. -/
theorem scanned_testOf {test : Option Expr} (h : ∀ x ∈ Expr.leavesOf test, x.Scanned) :
    ∀ x ∈ (testOf test).leaves, x.Scanned := by
  cases test with
  | none => exact List.forall_mem_singleton.2 trivial
  | some test => exact h

theorem scanned_forOf {test increment : Option Expr} {body : Stmt} {first : Option Stmt}
    (htest : ∀ x ∈ Expr.leavesOf test, x.Scanned)
    (hincrement : ∀ x ∈ Expr.leavesOf increment, x.Scanned)
    (hbody : ∀ x ∈ body.leaves, x.Scanned)
    (hfirst : ∀ x ∈ (first.map Stmt.leaves).getD [], x.Scanned) :
    ∀ x ∈ (forOf test increment body first).leaves, x.Scanned := by
  have hloop : ∀ x ∈ (loopOf test body increment).leaves, x.Scanned := by
    cases increment with
    | none => exact List.forall_mem_append.2 ⟨scanned_testOf htest, hbody⟩
    | some increment =>
      have hround := List.forall_mem_append.2 ⟨hincrement, List.forall_mem_nil _⟩
      have hblock := List.forall_mem_append.2 ⟨hbody, hround⟩
      exact List.forall_mem_append.2 ⟨scanned_testOf htest, hblock⟩
  cases first with
  | none => exact hloop
  | some first =>
    have hloops := List.forall_mem_append.2 ⟨hloop, List.forall_mem_nil _⟩
    exact List.forall_mem_append.2 ⟨hfirst, hloops⟩

theorem Symbol.Derives.scanned {nearest : Bool} {α : Type} {S : Symbol α} {w : List Token} {v : α}
    (h : Derives nearest S w v) (hw : AllLexemes w) : ∀ x ∈ S.leaves v, x.Scanned := by
  induction h with
  | program _ _ ih => exact ih (List.forall_mem_append.1 hw).1
  | nothing => exact nofun
  | another _ _ ih ih' =>
    obtain ⟨hfirst, hothers⟩ := List.forall_mem_append.1 hw
    exact List.forall_mem_append.2 ⟨ih hfirst, ih' hothers⟩
  | classDecl _ name _ _ _ _ ih ih' =>
    simp only [List.forall_mem_append, List.forall_mem_cons] at hw
    exact List.forall_mem_cons.2 ⟨scanned_nameOf name hw.2.1,
      List.forall_mem_append.2 ⟨ih hw.2.2.1, ih' hw.2.2.2.2.1⟩⟩
  | funDecl _ _ ih => exact ih (List.forall_mem_cons.1 hw).2
  | varDeclaration _ ih => exact ih hw
  | plain _ ih => exact ih hw
  | noHeritage => exact nofun
  | extending _ name =>
    simp only [List.forall_mem_cons] at hw
    exact List.forall_mem_singleton.2 (scanned_nameOf name hw.2.1)
  | noFunction => exact nofun
  | anotherFunction _ _ ih ih' =>
    obtain ⟨hfirst, hothers⟩ := List.forall_mem_append.1 hw
    exact List.forall_mem_append.2 ⟨ih hfirst, ih' hothers⟩
  | function name _ _ _ _ ih ih' =>
    simp only [List.forall_mem_append, List.forall_mem_cons] at hw
    exact List.forall_mem_cons.2 ⟨scanned_nameOf name hw.1,
      List.forall_mem_append.2 ⟨ih hw.2.2.1, ih' hw.2.2.2.2⟩⟩
  | noParameter => exact nofun
  | parameters _ ih => exact ih hw
  | oneName name =>
    exact List.forall_mem_singleton.2 (scanned_nameOf name (hw _ List.mem_cons_self))
  | anotherName name _ _ ih =>
    simp only [List.forall_mem_cons] at hw
    exact List.forall_mem_cons.2 ⟨scanned_nameOf name hw.1, ih hw.2.2⟩
  | undefined _ name _ =>
    simp only [List.forall_mem_cons] at hw
    exact List.forall_mem_singleton.2 (scanned_nameOf name hw.2.1)
  | defined _ name _ value _ =>
    simp only [List.forall_mem_append, List.forall_mem_cons] at hw
    exact List.forall_mem_cons.2 ⟨scanned_nameOf name hw.2.1, value.scanned hw.2.2.2.1⟩
  | exprStmt value _ => exact value.scanned (List.forall_mem_append.1 hw).1
  | expression _ ih => exact ih hw
  | printStmt _ value _ =>
    simp only [List.forall_mem_append, List.forall_mem_cons] at hw
    exact value.scanned hw.2.1
  | returnStmt _ _ _ ih =>
    simp only [List.forall_mem_append, List.forall_mem_cons] at hw
    exact ih hw.2.1
  | blockStmt _ ih => exact ih hw
  | whileStmt _ _ test _ _ ih =>
    simp only [List.forall_mem_append, List.forall_mem_cons] at hw
    exact List.forall_mem_append.2 ⟨test.scanned hw.2.2.1, ih hw.2.2.2.2⟩
  | forStmt _ _ _ _ _ _ _ _ ih ih' ih'' ih₃ =>
    simp only [List.forall_mem_append, List.forall_mem_cons] at hw
    obtain ⟨-, -, hfirst, htest, -, hincrement, -, hbody⟩ := hw
    exact scanned_forOf (ih' htest) (ih'' hincrement) (ih₃ hbody) (ih hfirst)
  | ifThen _ _ test _ _ ih =>
    simp only [List.forall_mem_append, List.forall_mem_cons] at hw
    exact List.forall_mem_append.2 ⟨test.scanned hw.2.2.1, ih hw.2.2.2.2⟩
  | ifElse _ _ test _ _ _ _ _ ih ih' =>
    simp only [List.forall_mem_append, List.forall_mem_cons] at hw
    obtain ⟨-, -, htest, -, hconsequent, -, halternative⟩ := hw
    exact List.forall_mem_append.2 ⟨test.scanned htest,
      List.forall_mem_append.2 ⟨ih hconsequent, ih' halternative⟩⟩
  | firstVar _ ih => exact ih hw
  | firstExpr _ ih => exact ih hw
  | noFirst => exact nofun
  | block _ _ _ ih =>
    simp only [List.forall_mem_append, List.forall_mem_cons] at hw
    exact ih hw.2.1
  | absent => exact nofun
  | present value => exact value.scanned hw

end Grammar

/-! ### Programs -/

mutual

theorem Expr.leaves_unnumbered : (e : Expr) → e.unnumbered.leaves = e.leaves
  | .literal _ | .var _ _ | .this _ _ | .super _ _ _ => rfl
  | .grouping e | .unary _ _ e => Expr.leaves_unnumbered e
  | .assign _ _ e | .get e _ => congrArg (_ :: ·) (Expr.leaves_unnumbered e)
  | .binary _ _ l r | .logical _ _ l r =>
    congrArg₂ (· ++ ·) (Expr.leaves_unnumbered l) (Expr.leaves_unnumbered r)
  | .call callee _ args =>
    congrArg₂ (· ++ ·) (Expr.leaves_unnumbered callee) (Expr.leavesAll_unnumbered args)
  | .set o _ e =>
    congrArg₂ (fun xs ys ↦ _ :: (xs ++ ys)) (Expr.leaves_unnumbered o) (Expr.leaves_unnumbered e)

theorem Expr.leavesAll_unnumbered : (es : List Expr) →
    Expr.leavesAll (Expr.unnumberedAll es) = Expr.leavesAll es
  | [] => rfl
  | e :: es => congrArg₂ (· ++ ·) (Expr.leaves_unnumbered e) (Expr.leavesAll_unnumbered es)

end

theorem Expr.leavesOf_unnumbered (e : Option Expr) :
    Expr.leavesOf (e.map Expr.unnumbered) = Expr.leavesOf e := by
  cases e with
  | none => rfl
  | some e => exact Expr.leaves_unnumbered e

theorem Superclass.leavesOf_unnumbered (s : Option Superclass) :
    Superclass.leavesOf (s.map Superclass.unnumbered) = Superclass.leavesOf s := by
  cases s <;> rfl

mutual

theorem Stmt.leaves_unnumbered : (s : Stmt) → s.unnumbered.leaves = s.leaves
  | .expression e | .print e => Expr.leaves_unnumbered e
  | .var _ e => congrArg (_ :: ·) (Expr.leavesOf_unnumbered e)
  | .block body => Stmt.leavesAll_unnumbered body
  | .ifThen test s | .loop test s =>
    congrArg₂ (· ++ ·) (Expr.leaves_unnumbered test) (Stmt.leaves_unnumbered s)
  | .ifElse test s t =>
    congrArg₂ (· ++ ·) (Expr.leaves_unnumbered test)
      (congrArg₂ (· ++ ·) (Stmt.leaves_unnumbered s) (Stmt.leaves_unnumbered t))
  | .function r => Routine.leaves_unnumbered r
  | .return_ _ e => Expr.leavesOf_unnumbered e
  | .class_ _ superclass methods =>
    congrArg₂ (fun xs ys ↦ _ :: (xs ++ ys)) (Superclass.leavesOf_unnumbered superclass)
      (Routine.leavesAll_unnumbered methods)

theorem Stmt.leavesAll_unnumbered : (ss : List Stmt) →
    Stmt.leavesAll (Stmt.unnumberedAll ss) = Stmt.leavesAll ss
  | [] => rfl
  | s :: ss => congrArg₂ (· ++ ·) (Stmt.leaves_unnumbered s) (Stmt.leavesAll_unnumbered ss)

theorem Routine.leaves_unnumbered : (r : Routine) → r.unnumbered.leaves = r.leaves
  | ⟨_, _, body⟩ => congrArg (fun xs ↦ _ :: (_ ++ xs)) (Stmt.leavesAll_unnumbered body)

theorem Routine.leavesAll_unnumbered : (rs : List Routine) →
    Routine.leavesAll (Routine.unnumberedAll rs) = Routine.leavesAll rs
  | [] => rfl
  | r :: rs => congrArg₂ (· ++ ·) (Routine.leaves_unnumbered r) (Routine.leavesAll_unnumbered rs)

end

theorem Stmt.mem_leavesAll {s : Stmt} {ss : List Stmt} {x : Leaf} (hs : s ∈ ss)
    (hx : x ∈ s.leaves) : x ∈ Stmt.leavesAll ss := by
  induction hs with
  | head => exact List.mem_append_left _ hx
  | tail _ _ ih => exact List.mem_append_right _ ih

/-- The literal is not a string, nor infinite or undefined. -/
def Literal.isPlain : Literal → Bool
  | .number value => value.isFinite
  | .string _ => Bool.false
  | _ => Bool.true

theorem Leaf.Scanned.legible {x : Leaf} (h : x.Scanned)
    (hplain : ∀ value, x = .literal value → value.isPlain) : x.Legible := by
  cases x with
  | name text => exact readsAs_iff.2 h
  | literal value =>
    have hplain := hplain value rfl
    cases value with
    | number value =>
      obtain ⟨cs, hcs⟩ := h
      obtain ⟨⟨digits, places, rfl⟩, -⟩ := hcs.of_number
      exact ⟨hplain, Number.ofDigits_isNegative digits places⟩
    | string => cases hplain
    | true | false | nil => trivial

namespace Reading

variable {source source' : String} {s t : Stmt}

/-- Every name and literal of a program that is read without an error was found by scanning. -/
theorem scanned (hclean : (Reading.ofTokens (tokens source)).diagnostics = [])
    (hs : s ∈ (Reading.ofTokens (tokens source)).statements) : ∀ x ∈ s.leaves, x.Scanned := by
  obtain ⟨line, htokens⟩ := tokens_eq source
  rw [htokens] at hclean hs
  have hderives := derives_of_clean (fun _ ht ↦ (lexical ht).1) rfl hclean
  have hall := hderives.scanned fun _ ht ↦ (lexical ht).2
  intro x hx
  refine hall x ?_
  change x ∈ Stmt.leavesAll (Stmt.unnumberedAll _)
  rw [Stmt.leavesAll_unnumbered]
  exact Stmt.mem_leavesAll hs hx

/-- The printed tree determines the program. Statements of programs that are read without an error,
and that have no strings and only finite numbers, are the same but for lines and identities if they
are printed alike. -/
theorem printed_tree_determines_program
    (hclean : (Reading.ofTokens (tokens source)).diagnostics = [])
    (hclean' : (Reading.ofTokens (tokens source')).diagnostics = [])
    (hs : s ∈ (Reading.ofTokens (tokens source)).statements)
    (ht : t ∈ (Reading.ofTokens (tokens source')).statements)
    (hplain : ∀ value, .literal value ∈ s.leaves → value.isPlain)
    (hplain' : ∀ value, .literal value ∈ t.leaves → value.isPlain)
    (htext : s.text = t.text) : s.outline erased = t.outline erased := by
  refine Stmt.outline_of_text (fun x hx ↦ ?_) (fun x hx ↦ ?_) htext
  · exact (scanned hclean hs x hx).legible fun value heq ↦ hplain value (heq ▸ hx)
  · exact (scanned hclean' ht x hx).legible fun value heq ↦ hplain' value (heq ▸ hx)

/-- The statement `f(a.b = -1);` with its operator and its parenthesis on these lines. -/
def settingCall (operator parenthesis : Nat) : Stmt :=
  .expression (.call (.var 0 ⟨"f", 1⟩) parenthesis
    [.set (.var 1 ⟨"a", 1⟩) ⟨"b", 1⟩
      (.unary .negate operator (.literal (.number ⟨0x3FF0000000000000⟩)))])

theorem plain_settingCall {operator parenthesis : Nat} {value : Literal}
    (h : .literal value ∈ (settingCall operator parenthesis).leaves) : value.isPlain := by
  have hvalue : value = .number ⟨0x3FF0000000000000⟩ := by
    simpa [settingCall, Stmt.leaves, Expr.leaves, Expr.leavesAll] using h
  rw [hvalue]
  decide

theorem printed_tree_determines_call :
    settingCall 1 1 ∈ (Reading.ofTokens (tokens "f(a.b = -1);")).statements ∧
      settingCall 2 3 ∈ (Reading.ofTokens (tokens "f(a.b =\n-1\n);")).statements ∧
      (settingCall 1 1).outline erased = (settingCall 2 3).outline erased := by
  have hread : settingCall 1 1 ∈ (Reading.ofTokens (tokens "f(a.b = -1);")).statements := by
    decide +kernel
  have hspread :
      settingCall 2 3 ∈ (Reading.ofTokens (tokens "f(a.b =\n-1\n);")).statements := by
    decide +kernel
  exact ⟨hread, hspread, printed_tree_determines_program (by decide +kernel) (by decide +kernel)
    hread hspread (fun _ ↦ plain_settingCall) (fun _ ↦ plain_settingCall) rfl⟩

end Reading

end Lox
