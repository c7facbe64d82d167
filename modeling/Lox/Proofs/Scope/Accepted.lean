import Lox.Program
import Lox.Proofs.Scope.Identities
import Lox.Proofs.Scope.Walk

/-!
Programs that are accepted. The scanner makes no identifier of a keyword, so the names in what the
parser has read without an error are names of variables, and it gives each use of a name an
identity of its own. Therefore all nodes of a program that also resolves are well placed, and its
distances are those of the scopes around its nodes.
-/

set_option autoImplicit false

namespace Lox

/-! ### No keyword is an identifier -/

namespace Scan

/-- A piece that is an identifier is no word that stands for something else. -/
def Piece.Plain (p : Piece) : Prop :=
  p.content = .token .identifier → String.ofList p.lexeme ∉ keywordNames

theorem plain_extended (c : Char) (kinds : Token.Kind × Token.Kind) (cs : List Char)
    (h : kinds.1 ≠ .identifier) (h' : kinds.2 ≠ .identifier) : (extended c kinds cs).Plain := by
  unfold extended
  split
  · exact fun hcontent ↦ absurd (Content.token.inj hcontent) h'
  · exact fun hcontent ↦ absurd (Content.token.inj hcontent) h

theorem plain_slash (cs : List Char) : (slash cs).Plain := by
  unfold slash
  split <;> exact fun hcontent ↦ nomatch hcontent

theorem plain_string (cs : List Char) : (string cs).Plain := by
  unfold string
  dsimp only
  split <;> exact fun hcontent ↦ nomatch hcontent

theorem plain_number (c : Char) (cs : List Char) : (number c cs).Plain := by
  unfold number
  dsimp only
  split
  · split <;> exact fun hcontent ↦ nomatch hcontent
  · exact fun hcontent ↦ nomatch hcontent

theorem plain_word (c : Char) (cs : List Char) : (word c cs).Plain := by
  intro hcontent hkeyword
  have hkind := Content.token.inj hcontent
  rcases List.mem_cons.1 hkeyword with hthis | hsuper
  · rw [show String.ofList (c :: cs.takeWhile isWordPart) = "this" from hthis] at hkind
    exact absurd hkind (by decide)
  · rw [show String.ofList (c :: cs.takeWhile isWordPart) = "super" from
      List.mem_singleton.1 hsuper] at hkind
    exact absurd hkind (by decide)

theorem mark?_ne_identifier (c : Char) : mark? c ≠ some .identifier := by
  unfold mark?
  split <;> exact fun h ↦ nomatch h

theorem extensible?_ne_identifier {c : Char} {kinds : Token.Kind × Token.Kind}
    (h : extensible? c = some kinds) : kinds.1 ≠ .identifier ∧ kinds.2 ≠ .identifier := by
  unfold extensible? at h
  split at h <;> cases h <;> exact ⟨nofun, nofun⟩

theorem plain_piece (c : Char) (cs : List Char) : (piece c cs).Plain := by
  unfold piece
  split
  next kind _ _ hmark =>
    intro hcontent
    exact absurd (Content.token.inj hcontent ▸ hmark) (mark?_ne_identifier c)
  next kinds _ hkinds =>
    obtain ⟨h, h'⟩ := extensible?_ne_identifier hkinds
    exact plain_extended c kinds cs h h'
  next =>
    split
    · exact fun hcontent ↦ nomatch hcontent
    · split
      · exact plain_slash cs
      · split
        · exact plain_string cs
        · split
          · exact plain_number c cs
          · split
            · exact plain_word c cs
            · exact fun hcontent ↦ nomatch hcontent

theorem plain_itemsFrom (line : Nat) (text : List Char) :
    ∀ t, .token t ∈ itemsFrom line text → t.kind = .identifier → t.lexeme ∉ keywordNames := by
  induction line, text using itemsFrom.induct with
  | case1 line =>
    intro t ht hkind
    rw [itemsFrom] at ht
    cases List.mem_singleton.1 ht
    cases hkind
  | case2 line c cs p last item hitem ih =>
    intro t ht hkind
    rw [itemsFrom] at ht
    simp only [p, last] at hitem
    simp only [hitem] at ht
    rcases List.mem_cons.1 ht with rfl | ht
    · unfold Piece.item? at hitem
      split at hitem
      · cases hitem
      next kind hcontent =>
        cases hitem
        exact plain_piece c cs (hcontent.trans (congrArg Content.token hkind))
      · cases hitem
    · exact ih t ht hkind
  | case3 line c cs p last hitem ih =>
    intro t ht hkind
    rw [itemsFrom] at ht
    simp only [p, last] at hitem
    simp only [hitem] at ht
    exact ih t ht hkind

theorem plain_tokens (source : String) : (Cursor.ofTokens (tokens source)).Plain := by
  intro t ht hkind
  obtain ⟨item, hitem, htoken⟩ := List.mem_filterMap.1 (List.takeWhile_subset _ ht)
  cases item with
  | token t' =>
    cases htoken
    exact plain_itemsFrom 1 source.toList t hitem hkind
  | error line cause => cases htoken

end Scan

/-! ### Accepted programs -/

namespace Program

variable {source : String} {p : Program}

theorem exists_of_isOk {x : Except (List Diagnostic) Program} (h : x.isOk = true) :
    ∃ p, x = .ok p := by
  cases x with
  | error diagnostics => cases h
  | ok p => exact ⟨p, rfl⟩

/-- What has to be the case for a program to be made of a text. -/
theorem ofSource_eq_ok : ofSource source = .ok p ↔
    Scan.diagnostics source = [] ∧ (Reading.ofTokens (Scan.tokens source)).diagnostics = [] ∧
      p.statements = (Reading.ofTokens (Scan.tokens source)).statements ∧
      p.distances = (Resolution.ofStatements p.statements).distances ∧
      (Resolution.ofStatements p.statements).diagnostics = [] := by
  constructor
  · intro h
    unfold ofSource at h
    dsimp only at h
    split at h
    next hfaultless =>
      obtain ⟨hscan, hread⟩ := List.append_eq_nil_iff.1 hfaultless
      split at h
      next hclean =>
        cases h
        exact ⟨hscan, hread, rfl, rfl, hclean⟩
      · cases h
    · cases h
  · obtain ⟨statements, distances⟩ := p
    rintro ⟨hscan, hread, hstatements, hdistances, hclean⟩
    dsimp only at hstatements hdistances hclean
    subst hstatements hdistances
    unfold ofSource
    dsimp only
    rw [hscan, hread]
    rw [List.append_nil]
    dsimp only
    rw [hclean]

theorem clean_of_ofSource (h : ofSource source = .ok p) :
    p.statements = (Reading.ofTokens (Scan.tokens source)).statements ∧
      p.distances = (Resolution.ofStatements p.statements).distances ∧
      (Resolution.ofStatements p.statements).diagnostics = [] :=
  (ofSource_eq_ok.1 h).2.2

theorem wellRead_of_ofSource (h : ofSource source = .ok p) (Δ : Setting) :
    WellRead Δ (.stmts p.statements) := by
  obtain ⟨hread, -, -⟩ := clean_of_ofSource h
  obtain ⟨⟨w, hw⟩, -⟩ :=
    Grammar.reads_declarations _ (Cursor.ofTokens (Scan.tokens source)) rfl
  rw [hread]
  exact hw.regular (Scan.plain_tokens source) Δ

/-- No two uses of names in a program have one identity. -/
theorem nodup_ids_of_ofSource (h : ofSource source = .ok p) :
    (Stmt.idsAll p.statements).Nodup := by
  obtain ⟨hread, -, -⟩ := clean_of_ofSource h
  rw [hread]
  exact Reading.nodup_ids _

/-- The identities of a program are those that have been drawn for it. -/
theorem lt_idCount_of_ofSource (h : ofSource source = .ok p) :
    ∀ id ∈ Stmt.idsAll p.statements, id < (Reading.ofTokens (Scan.tokens source)).idCount := by
  obtain ⟨hread, -, -⟩ := clean_of_ofSource h
  rw [hread]
  exact Reading.lt_idCount _

/-- The distances of an accepted program are those of its scopes, also when a machine without
distances has taken them over. -/
theorem settled_of_ofSource (h : ofSource source = .ok p) :
    Settled (Bindings.empty.merge p.distances) [] (.stmts p.statements) := by
  obtain ⟨-, hdistances, hclean⟩ := clean_of_ofSource h
  rw [hdistances]
  exact Resolution.settled_of_resolved (wellRead_of_ofSource h []) (nodup_ids_of_ofSource h) hclean

end Program

end Lox
