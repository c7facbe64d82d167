import Lox.Proofs.ForLoops.Desugaring
import Lox.Proofs.Outlines.Running

/-!
A `for` and its loop in the place of each other. Texts that are read as trees which are bare alike
make programs that nothing but lines tells apart: they are accepted or not together, names in the
same places have the same distances, and they print the same and end alike
(`Program.corresponds_of_bare`). So it is with a text that has a `for` somewhere and one that has
its loop there, unless the body leaves an `if` open that takes an `else` away from the place, while
the braces of the loop do not let it.
-/

set_option autoImplicit false

namespace Lox

open Grammar

/-! ### Words and what is read of them -/

/-- The last token of every text. -/
def ending : Token := ⟨.endOfInput, "", 0⟩

/-- The text has no lexical errors, and its tokens are these up to their lines. -/
structure Spells (source : String) (w : List Token) : Prop where
  clean : Scan.diagnostics source = []
  words : SameWords (w ++ [ending]) (Scan.tokens source)

/-- The tokens are read without an error, as one statement. -/
structure Reading.Single (tokens : List Token) (s : Stmt) : Prop where
  clean : (Reading.ofTokens tokens).diagnostics = []
  statements : (Reading.ofTokens tokens).statements = [s]

namespace Reading

variable {w tokens : List Token}

/-- What has a derivation is read without an error, whatever its lines, as a tree that is bare like
that of the derivation. -/
theorem bare_of_derives {ss : List Stmt} (h : Symbol.Derives true .declarations w ss)
    (hw : SameWords (w ++ [ending]) tokens) :
    (Reading.ofTokens tokens).diagnostics = [] ∧
      Stmt.outlineAll erased (Reading.ofTokens tokens).statements = Stmt.outlineAll erased ss := by
  obtain ⟨u, _, rfl, hu, hend⟩ := hw.split
  obtain ⟨eof, _, rfl, heof, -, hend⟩ := hend.head
  rw [hend.eq_nil]
  have hwithin : ∀ t ∈ u, t.kind ≠ .endOfInput := hu.unended h.unended
  obtain ⟨ss', hss', hbare⟩ := h.reword hu
  obtain ⟨hclean, htree⟩ := clean_of_derives hwithin heof hss'
  refine ⟨hclean, ?_⟩
  rw [← Stmt.outlineAll_unnumbered, htree]
  exact hbare.symm

theorem single_of_derives {isOpen : Bool} {s : Stmt}
    (h : Symbol.Derives true (.statement isOpen) w s) (hw : SameWords (w ++ [ending]) tokens) :
    ∃ s', Single tokens s' ∧ s'.outline erased = s.outline erased := by
  have hdeclarations : Symbol.Derives true .declarations w [s] := by
    simpa using Symbol.Derives.another (.plain h) .nothing
  obtain ⟨hclean, hbare⟩ := bare_of_derives hdeclarations hw
  cases hstatements : (Reading.ofTokens tokens).statements with
  | nil =>
    rw [hstatements] at hbare
    cases hbare
  | cons s' rest =>
    rw [hstatements] at hbare
    obtain ⟨hs', hrest⟩ := List.cons.inj hbare
    cases rest with
    | nil => exact ⟨s', ⟨hclean, hstatements⟩, hs'⟩
    | cons _ _ => cases hrest

end Reading

/-! ### Programs that correspond -/

namespace Program

/-- Only lines and identities tell the two texts apart. One is accepted if the other is, with a tree
that is bare like that of the other, and the same distances at the same places; and their runs print
the same and end alike. -/
structure Corresponds (source source' : String) : Prop where
  accepted : (ofSource source).isOk = (ofSource source').isOk
  trees : ∀ {p p'}, ofSource source = .ok p → ofSource source' = .ok p' →
    Stmt.outlineAll erased p.statements = Stmt.outlineAll erased p'.statements
  distances : ∀ {p p'}, ofSource source = .ok p → ofSource source' = .ok p' →
    (Stmt.idsAll p.statements).map p.distances.find? =
      (Stmt.idsAll p'.statements).map p'.distances.find?
  runs : ∀ {p p'}, ofSource source = .ok p → ofSource source' = .ok p' → ∀ fuel sink clock,
    (Run.ofSource fuel sink clock source).unlined = (Run.ofSource fuel sink clock source').unlined

variable {source source' : String}

/-- Whether a text is accepted, if it is read without an error. -/
theorem isOk_iff (hscan : Scan.diagnostics source = [])
    (hread : (Reading.ofTokens (Scan.tokens source)).diagnostics = []) :
    (ofSource source).isOk = true ↔ (Resolution.ofStatements
      (Reading.ofTokens (Scan.tokens source)).statements).diagnostics = [] := by
  refine ⟨fun hok ↦ ?_, fun hclean ↦ ?_⟩
  · obtain ⟨p, hp⟩ := exists_of_isOk hok
    obtain ⟨hstatements, -, hclean⟩ := clean_of_ofSource hp
    exact hstatements ▸ hclean
  · have hp := (ofSource_eq_ok (p := ⟨_, (Resolution.ofStatements _).distances⟩)).2
      ⟨hscan, hread, rfl, rfl, hclean⟩
    rw [hp]
    rfl

/-- Programs whose outlines are one, with one table of distances, run alike but for lines. -/
theorem run_of_outline {ρ ρ' : NodeId → NodeId} (hρ : Function.Injective ρ)
    (hρ' : Function.Injective ρ') {p p' : Program} (h : p.outline ρ = p'.outline ρ')
    (fuel : Nat) (sink : Sink) (clock : Clock) :
    (Run.of (p.run fuel (.initial sink clock))).unlined =
      (Run.of (p'.run fuel (.initial sink clock))).unlined := by
  rw [← run_outline hρ, ← run_outline hρ', h]

theorem corresponds_of_bare (hscan : Scan.diagnostics source = [])
    (hscan' : Scan.diagnostics source' = [])
    (hread : (Reading.ofTokens (Scan.tokens source)).diagnostics = [])
    (hread' : (Reading.ofTokens (Scan.tokens source')).diagnostics = [])
    (h : Stmt.outlineAll erased (Reading.ofTokens (Scan.tokens source)).statements =
      Stmt.outlineAll erased (Reading.ofTokens (Scan.tokens source')).statements) :
    Corresponds source source' := by
  have houtline := Stmt.outlineAll_placeIn h (Reading.nodup_ids _) (Reading.nodup_ids _)
  obtain ⟨hdistances, hclean⟩ := Resolution.ofStatements_of_outline (placeIn_injective _)
    (placeIn_injective _) houtline
  have hplaces := Resolution.distances_of_outline (placeIn_injective _) (placeIn_injective _)
    houtline
  have hprogram {source : String} {p : Program} (hp : ofSource source = .ok p) :
      p = ⟨(Reading.ofTokens (Scan.tokens source)).statements, (Resolution.ofStatements
        (Reading.ofTokens (Scan.tokens source)).statements).distances⟩ := by
    obtain ⟨statements, distances⟩ := p
    obtain ⟨hstatements, hdistances, -⟩ := clean_of_ofSource hp
    dsimp only at hstatements hdistances
    rw [hdistances, hstatements]
  refine ⟨?_, fun hp hp' ↦ ?_, fun hp hp' ↦ ?_, fun hp hp' fuel sink clock ↦ ?_⟩
  · rw [Bool.eq_iff_iff, isOk_iff hscan hread, isOk_iff hscan' hread', hclean]
  · rw [hprogram hp, hprogram hp', h]
  · rw [hprogram hp, hprogram hp']
    exact hplaces
  · rw [Run.ofSource_of_ok hp, Run.ofSource_of_ok hp', hprogram hp, hprogram hp']
    exact run_of_outline (placeIn_injective _) (placeIn_injective _)
      (congrArg₂ Program.mk houtline hdistances) fuel sink clock

/-- In a context for the `for` the two make programs that correspond. -/
theorem corresponds_of_context {c : Clauses} {isOpen : Bool} (h : c.Derivable isOpen)
    {pre post : List Token} {tree : Stmt → List Stmt}
    (context : Symbol.Context isOpen .declarations pre post tree)
    (hsource : Spells source (pre ++ (c.forText ++ post)))
    (hsource' : Spells source' (pre ++ (c.desugared ++ post))) : Corresponds source source' := by
  obtain ⟨s, isOpen', hfor, hloop, hopen⟩ := h.derives
  have context' : Symbol.Context isOpen' .declarations pre post tree :=
    context.adapts fun htrue ↦ .inl (hopen htrue)
  obtain ⟨hread, hbare⟩ := Reading.bare_of_derives (context.fill hfor) hsource.words
  obtain ⟨hread', hbare'⟩ := Reading.bare_of_derives (context'.fill hloop) hsource'.words
  exact corresponds_of_bare hsource.clean hsource'.clean hread hread' (hbare.trans hbare'.symm)

/-- Without braces an `else` that comes next goes to the body of both. -/
theorem corresponds_of_not_braced {c : Clauses} (h : c.Derivable true) (hbraced : ¬c.IsBraced)
    {pre post : List Token} {tree : Stmt → List Stmt}
    (context : Symbol.Context false .declarations pre post tree)
    (hsource : Spells source (pre ++ (c.forText ++ post)))
    (hsource' : Spells source' (pre ++ (c.desugared ++ post))) : Corresponds source source' := by
  obtain ⟨body, hbody⟩ := h.body
  obtain ⟨u, post', isOpen, body', rfl, hbody', _, context'⟩ := context.absorbs hbody
  have h' : (c.extended u).Derivable isOpen := ⟨h.first, h.test, h.increment, body', hbody'⟩
  refine corresponds_of_context h' context' ?_ ?_
  · simpa [Clauses.forText_extended] using hsource
  · simpa [Clauses.desugared_extended c hbraced] using hsource'

/-- A `for` is the loop that its parts make. Both are read as statements that are bare alike; and in
the place of each other, wherever the grammar has a statement, they make programs that correspond,
unless there are braces in the loop, the body ends in an `if` without an `else`, and an `else` comes
next. -/
theorem for_corresponds_to_while {c : Clauses} {isOpen : Bool} (h : c.Derivable isOpen) :
    (∀ tokens tokens', SameWords (c.forText ++ [ending]) tokens →
      SameWords (c.desugared ++ [ending]) tokens' → ∃ s s', Reading.Single tokens s ∧
        Reading.Single tokens' s' ∧ s.outline erased = s'.outline erased) ∧
    ∀ {placed : Bool} {pre post : List Token} {tree : Stmt → List Stmt},
      Symbol.Context placed .declarations pre post tree →
      (c.IsBraced → isOpen = true → ∀ j, post.head? = some j → j.kind ≠ .else_) →
      ∀ source source', Spells source (pre ++ (c.forText ++ post)) →
        Spells source' (pre ++ (c.desugared ++ post)) → Corresponds source source' := by
  obtain ⟨s, isOpen', hfor, hloop, -⟩ := h.derives
  refine ⟨fun tokens tokens' hw hw' ↦ ?_, fun {placed pre post tree} context hnone source source'
    hsource hsource' ↦ ?_⟩
  · obtain ⟨t, ht, hbare⟩ := Reading.single_of_derives hfor hw
    obtain ⟨t', ht', hbare'⟩ := Reading.single_of_derives hloop hw'
    exact ⟨t, t', ht, ht', hbare.trans hbare'.symm⟩
  · by_cases hbraced : c.IsBraced
    · have context' : Symbol.Context isOpen .declarations pre post tree :=
        context.adapts fun htrue ↦ .inr (hnone hbraced htrue)
      exact corresponds_of_context h context' hsource hsource'
    · cases isOpen with
      | false =>
        have context' : Symbol.Context false .declarations pre post tree := context.adapts nofun
        exact corresponds_of_context h context' hsource hsource'
      | true =>
        cases placed with
        | true => exact corresponds_of_context h context hsource hsource'
        | false => exact corresponds_of_not_braced h hbraced context hsource hsource'

/-- A loop with all its parts, in a block. -/
def forInBlock : String := "{ for (var i = true; i; i = false) print i; }"

def whileInBlock : String := "{ { var i = true; while (i) { print i; i = false; } } }"

/-- The parts of that loop. -/
def fullClauses : Clauses where
  first := [⟨.var, "var", 0⟩, ⟨.identifier, "i", 0⟩, ⟨.equal, "=", 0⟩, ⟨.true, "true", 0⟩,
    ⟨.semicolon, ";", 0⟩]
  test := [⟨.identifier, "i", 0⟩]
  increment := [⟨.identifier, "i", 0⟩, ⟨.equal, "=", 0⟩, ⟨.false, "false", 0⟩]
  body := [⟨.print, "print", 0⟩, ⟨.identifier, "i", 0⟩, ⟨.semicolon, ";", 0⟩]

theorem derivable_fullClauses : fullClauses.Derivable false where
  first := ⟨_, .firstVar (.defined (w := [⟨.true, "true", 0⟩]) rfl rfl rfl
    (derives_primary (.literal rfl)) rfl)⟩
  test := ⟨_, .present (derives_name rfl)⟩
  increment := ⟨_, .present (.assign rfl rfl (derives_primary (.literal rfl)))⟩
  body := ⟨_, .printStmt (w := [⟨.identifier, "i", 0⟩]) rfl (derives_name rfl) rfl⟩

def blockOpening : List Token := [⟨.leftBrace, "\x7b", 0⟩]

def blockClosing : List Token := [⟨.rightBrace, "\x7d", 0⟩]

theorem context_inBlock :
    ∃ tree, Symbol.Context false .declarations blockOpening blockClosing tree :=
  ⟨_, .firstDeclaration (.plain (.blockStmt (.block (l := ⟨.leftBrace, "\x7b", 0⟩)
    (r := ⟨.rightBrace, "\x7d", 0⟩) rfl (.firstDeclaration (.plain .here) .nothing) rfl))) .nothing⟩

theorem spells_forInBlock :
    Spells forInBlock (blockOpening ++ (fullClauses.forText ++ blockClosing)) :=
  ⟨by decide +kernel, .of_map (by decide +kernel)⟩

theorem spells_whileInBlock :
    Spells whileInBlock (blockOpening ++ (fullClauses.desugared ++ blockClosing)) :=
  ⟨by decide +kernel, .of_map (by decide +kernel)⟩

theorem for_corresponds_to_while_inBlock :
    fullClauses.Derivable false ∧
      (∃ tree, Symbol.Context false .declarations blockOpening blockClosing tree) ∧
      Spells forInBlock (blockOpening ++ (fullClauses.forText ++ blockClosing)) ∧
      Spells whileInBlock (blockOpening ++ (fullClauses.desugared ++ blockClosing)) ∧
      (ofSource forInBlock).isOk = true ∧ Corresponds forInBlock whileInBlock := by
  obtain ⟨tree, htree⟩ := context_inBlock
  exact ⟨derivable_fullClauses, ⟨tree, htree⟩, spells_forInBlock, spells_whileInBlock,
    by decide +kernel, (for_corresponds_to_while derivable_fullClauses).2 htree (fun _ ↦ nofun) _ _
      spells_forInBlock spells_whileInBlock⟩

/-! ### An else that goes to the body -/

/-- The parts of `for (nil; false;) if (true) print true;`. -/
def openClauses : Clauses where
  first := [⟨.nil, "nil", 0⟩, ⟨.semicolon, ";", 0⟩]
  test := [⟨.false, "false", 0⟩]
  increment := []
  body := [⟨.if_, "if", 0⟩, ⟨.leftParen, "(", 0⟩, ⟨.true, "true", 0⟩, ⟨.rightParen, ")", 0⟩,
    ⟨.print, "print", 0⟩, ⟨.true, "true", 0⟩, ⟨.semicolon, ";", 0⟩]

theorem derivable_openClauses : openClauses.Derivable true where
  first := ⟨_, .firstExpr (.exprStmt (w := [⟨.nil, "nil", 0⟩]) (derives_primary (.literal rfl))
    rfl)⟩
  test := ⟨_, .present (derives_primary (.literal rfl))⟩
  increment := ⟨_, .absent⟩
  body := ⟨_, .ifThen (w := [⟨.true, "true", 0⟩]) rfl rfl (derives_primary (.literal rfl)) rfl
    (.printStmt (w := [⟨.true, "true", 0⟩]) rfl (derives_primary (.literal rfl)) rfl)⟩

/-- The tokens of `if (false)`. -/
def beforeElse : List Token :=
  [⟨.if_, "if", 0⟩, ⟨.leftParen, "(", 0⟩, ⟨.false, "false", 0⟩, ⟨.rightParen, ")", 0⟩]

/-- The tokens of `else print nil;`. -/
def fromElse : List Token :=
  [⟨.else_, "else", 0⟩, ⟨.print, "print", 0⟩, ⟨.nil, "nil", 0⟩, ⟨.semicolon, ";", 0⟩]

theorem context_beforeElse :
    ∃ tree, Symbol.Context false .declarations beforeElse fromElse tree := by
  have hlast : Symbol.Derives true (.statement false) _ _ :=
    .printStmt (p := ⟨.print, "print", 0⟩) (w := [⟨.nil, "nil", 0⟩]) (t := ⟨.semicolon, ";", 0⟩) rfl
      (derives_primary (.literal rfl)) rfl
  have hinner : Symbol.Context false (.statement false) beforeElse fromElse _ :=
    .consequent (w := [⟨.false, "false", 0⟩]) rfl rfl (derives_primary (.literal rfl)) rfl .here rfl
      hlast
  exact ⟨_, .firstDeclaration (.plain hinner) .nothing⟩

def forBeforeElse : String :=
  "if (false) for (nil; false;) if (true) print true; else print nil;"

def whileBeforeElse : String :=
  "if (false) { nil; while (false) if (true) print true; } else print nil;"

/-- What a run that finishes has printed. -/
def printed? : Run → Option (List UInt8)
  | .finished printed => some printed.data.toList
  | _ => none

/-- After the body the `else` is that of the `if` in it, so that nothing is printed. The block that
the loop stands in keeps the two apart, and then the `else` is that of the first `if`. -/
theorem else_after_for_differs :
    openClauses.Derivable true ∧
      (∃ tree, Symbol.Context false .declarations beforeElse fromElse tree) ∧
      Spells forBeforeElse (beforeElse ++ (openClauses.forText ++ fromElse)) ∧
      Spells whileBeforeElse (beforeElse ++ (openClauses.desugared ++ fromElse)) ∧
      (ofSource forBeforeElse).isOk = true ∧ (ofSource whileBeforeElse).isOk = true ∧
      printed? (Run.ofSource 9 .unlimited .stopped forBeforeElse) = some [] ∧
      printed? (Run.ofSource 9 .unlimited .stopped whileBeforeElse) = some [110, 105, 108, 10] :=
  ⟨derivable_openClauses, context_beforeElse, ⟨by decide +kernel, .of_map (by decide +kernel)⟩,
    ⟨by decide +kernel, .of_map (by decide +kernel)⟩, by decide +kernel, by decide +kernel,
    by decide +kernel, by decide +kernel⟩

end Program

end Lox
