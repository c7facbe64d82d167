import Lox.Proofs.FirstFault.Programs
import Lox.Proofs.Appending.Reading

/-!
A stretch of tokens that is read by itself wherever it stands. Sound declarations before it do not
matter, since they end before it; and what is behind it does not, if an error in it is found at one
of its own tokens and what is dropped after that ends where the stretch ends. Then the text is read
in three parts, each as it is read alone.
-/

set_option autoImplicit false

namespace Lox

namespace Reading

open Grammar

/-- What is read from a cursor on, up to the end of input. -/
def ofCursor (c : Cursor) : Reading :=
  ⟨(declarations c).1, (declarations c).2.reports, (declarations c).2.nextId⟩

/-- What is read of one text and then of another one, whose identities are drawn later. -/
def join (first second : Reading) : Reading where
  statements := first.statements ++ Stmt.shiftAll ⟨first.idCount, 0⟩ second.statements
  diagnostics := first.diagnostics ++ second.diagnostics
  idCount := first.idCount + second.idCount

end Reading

/-- A cursor before the same tokens, with nothing read yet. -/
def Cursor.fresh (c : Cursor) : Cursor := { c with nextId := 0, reports := [] }

/-- The first cursor, where identities are drawn from a later one on. -/
def Cursor.ofTokensFrom (id : NodeId) (tokens : List Token) : Cursor :=
  { Cursor.ofTokens tokens with nextId := id }

theorem Diagnostic.later_zero (d : Diagnostic) : d.later 0 = d := by
  cases d <;> rfl

theorem Diagnostic.map_later_zero (ds : List Diagnostic) : ds.map (Diagnostic.later 0) = ds :=
  List.map_id'' Diagnostic.later_zero ds

theorem Token.map_later_zero (ts : List Token) : ts.map (Token.later 0) = ts :=
  List.map_id'' (fun _ ↦ rfl) ts

namespace Reading

open Grammar

/-- What is read from a cursor on does not depend on what has been read before. -/
theorem ofCursor_eq_join (c : Cursor) :
    ofCursor c = join ⟨[], c.reports, c.nextId⟩ (ofCursor c.fresh) := by
  let μ : Elsewhere := ⟨⟨c.nextId, 0⟩, c.reports, [], c.endLine, True⟩
  have hmoved : Moved μ c.fresh c := by
    refine ⟨?_, (Nat.zero_add _).symm, (List.append_nil _).symm, rfl, fun _ ↦ ⟨rfl, rfl⟩⟩
    exact ((List.append_nil _).trans (Token.map_later_zero c.rest)).symm
  obtain ⟨hstatements, hend⟩ := declarations_moved (μ := μ) trivial _ hmoved rfl
  have hreports : (declarations c).2.reports = c.reports ++ (declarations c.fresh).2.reports := by
    rw [hend.reports]
    exact congrArg _ (Diagnostic.map_later_zero _)
  unfold ofCursor join
  rw [hstatements, hreports, hend.nextId, Nat.add_comm]
  rfl

theorem ofCursor_none {c : Cursor} (h : c.rest = []) : ofCursor c = ⟨[], c.reports, c.nextId⟩ := by
  unfold ofCursor
  rw [declarations_none h]

/-- A declaration, or an error, and what is behind it. -/
theorem ofCursor_some {c next : Cursor} {value : Option Stmt} (h : ¬c.size = 0)
    (hvalue : (recover (declaration c) (Nat.pos_of_ne_zero h)).value = value)
    (hnext : (recover (declaration c) (Nat.pos_of_ne_zero h)).next = next) :
    ofCursor c =
      ⟨value.toList ++ (ofCursor next).statements, (ofCursor next).diagnostics,
        (ofCursor next).idCount⟩ := by
  unfold ofCursor
  rw [declarations_some h, hvalue, hnext]

/-- Sound declarations are read as they are alone, and what is behind them from there on. It must
not begin with an `else`, which the last of them might take. -/
theorem ofTokens_behind {P : List Token} {eof : Token} (hP : ∀ t ∈ P, t.kind ≠ .endOfInput)
    (heof : eof.kind = .endOfInput) (hclean : (ofTokens (P ++ [eof])).diagnostics = [])
    {Q : List Token} (helse : ∀ t ∈ (Cursor.ofTokens Q).rest.head?, t.kind ≠ .else_)
    {later : Reading}
    (hlater : ofCursor (Cursor.ofTokensFrom (ofTokens (P ++ [eof])).idCount Q) = later) :
    ofTokens (P ++ Q) = ⟨(ofTokens (P ++ [eof])).statements ++ later.statements,
      later.diagnostics, later.idCount⟩ := by
  let c := Cursor.ofTokens (P ++ [eof])
  let μ : Elsewhere :=
    ⟨⟨0, 0⟩, [], (Cursor.ofTokens Q).rest, (Cursor.ofTokens Q).endLine, False⟩
  have hmoved : Moved μ c (Cursor.ofTokens (P ++ Q)) := by
    rw [Cursor.ofTokens_append hP]
    refine ⟨?_, rfl, rfl, rfl, False.elim⟩
    change P ++ _ = c.rest.map (Token.later 0) ++ _
    rw [Token.map_later_zero, Cursor.rest_ofTokens hP heof]
  obtain ⟨m, hm, hread⟩ := declarations_shifted (μ := μ) helse _ hmoved rfl
    (congrArg List.length hclean)
  have hend : (declarations c).2.rest = [] := (reads_declarations _ c rfl).2
  have hrest : m.rest = (Cursor.ofTokens Q).rest := by
    rw [hm.rest, hend]
    rfl
  have hreports : m.reports = [] := by
    rw [hm.reports, show (declarations c).2.reports = [] from hclean]
    rfl
  have hm' : m = Cursor.ofTokensFrom (ofTokens (P ++ [eof])).idCount Q := by
    obtain ⟨rest, endLine, nextId, reports⟩ := m
    have hline : endLine = (Cursor.ofTokens Q).endLine := hm.endLine
    have hid : nextId = (ofTokens (P ++ [eof])).idCount := hm.nextId
    rw [hline, hid, show rest = _ from hrest, show reports = [] from hreports]
    rfl
  rw [← hlater, ← hm']
  change ofCursor (Cursor.ofTokens (P ++ Q)) = _
  unfold ofCursor
  rw [hread, Stmt.shiftAll_zero]
  rfl

end Reading

namespace Grammar

variable {μ : Elsewhere} {c c' : Cursor}

/-- A declaration without statements inside, at another place. -/
theorem follows_simple {t : Token} {rest : List Token} (hrest : c.rest = t :: rest)
    (hsimple : isSimple t.kind = true) (h : Moved μ c c') :
    Follows μ Closed (declaration c) (declaration c') := by
  have hrest' := h.rest_cons hrest
  have hskip := h.skip hrest
  unfold declaration
  rw [declarationWith_cons hrest, declarationWith_cons hrest', statementWith_cons hrest,
    statementWith_cons hrest']
  obtain ⟨kind, lexeme, line⟩ := t
  cases kind with
  | var => exact follows_inside (follows_varDeclaration hskip)
  | print => exact follows_inside (follows_printStatement hskip)
  | return_ => exact follows_inside (follows_returnStatement line hskip)
  | class_ | fun_ | for_ | if_ | while_ | leftBrace => cases hsimple
  | _ => exact follows_expressionStatement h

/-- All that comes at the cursor has been read, or else an error lies in a token of it. -/
def Contained {n : Nat} (c : Cursor) (r : Reply n Stmt) : Prop :=
  r.Ends (fun _ next ↦ next.rest = []) fun next ↦ next.rest ≠ [] ∧ next.rest <:+ c.rest

/-- Whatever part of the tokens an error is found at, reading goes on where they end. -/
def Bounded (tokens behind : List Token) : Prop :=
  ∀ v, v ≠ [] → v <:+ tokens → resume v = [] ∧ resume (v ++ behind) = behind

/-- On the same lines, the place of reading is told by what stands around it. -/
theorem Moved.eq_of_lines (h : Moved μ c c') (hlines : μ.lines = 0) :
    c' = ⟨c.rest ++ μ.behind, μ.endLine, c.nextId + μ.ids, μ.reports ++ c.reports⟩ := by
  have hrest := h.rest
  have hreports := h.reports
  rw [hlines, Token.map_later_zero] at hrest
  rw [hlines, Diagnostic.map_later_zero] at hreports
  rw [← hrest, ← h.endLine, ← h.nextId, ← hreports]

theorem Contained.rest_recover {n : Nat} {r : Reply n Stmt} (h : Contained c r)
    {behind : List Token} (hbounded : Bounded c.rest behind) (pos : 0 < n) :
    (recover r pos).next.rest = [] := by
  cases r with
  | done s next less => exact h
  | failed d next notLonger => exact (hbounded next.rest h.1 h.2).1

/-- Contained in bounded tokens, a declaration ends where they end, wherever they stand. -/
theorem Contained.recover {n n' : Nat} {r : Reply n Stmt} {r' : Reply n' Stmt}
    (hcontained : Contained c r) (h : Follows μ Closed r r') (hbounded : Bounded c.rest μ.behind)
    (hlines : μ.lines = 0) (pos : 0 < n) (pos' : 0 < n') :
    (recover r' pos').value = (recover r pos).value.map (Stmt.shift μ.toShift) ∧
      (recover r' pos').next =
        ⟨μ.behind, μ.endLine, (recover r pos).next.nextId + μ.ids,
          μ.reports ++ (recover r pos).next.reports⟩ := by
  cases r with
  | done s next less =>
    cases r' with
    | done s' next' less' =>
      obtain ⟨rfl, hmoved⟩ := h trivial
      have hnil : next.rest = [] := hcontained
      refine ⟨rfl, ?_⟩
      change next' = _
      rw [hmoved.eq_of_lines hlines, hnil]
      rfl
    | failed d' next' notLonger' => exact absurd trivial h
  | failed d next notLonger =>
    obtain ⟨hsome, hsuffix⟩ : next.rest ≠ [] ∧ next.rest <:+ c.rest := hcontained
    cases r' with
    | done s' next' less' => exact absurd (.inl hsome) h
    | failed d' next' notLonger' =>
      obtain ⟨hd, hmoved⟩ := h (.inl hsome)
      refine ⟨rfl, ?_⟩
      change afterError next' d' = _
      rw [hmoved.eq_of_lines hlines, hd, hlines, Diagnostic.later_zero]
      change Cursor.mk (resume (next.rest ++ μ.behind)) _ _ (_ ++ _ ++ [d]) = _
      rw [(hbounded next.rest hsome hsuffix).2, List.append_assoc]
      rfl

end Grammar

namespace Reading

open Grammar

/-- What is read of tokens before an end of input. -/
theorem ofTokens_eq {s : List Token} {eof : Token} (hs : ∀ t ∈ s, t.kind ≠ .endOfInput)
    (heof : eof.kind = .endOfInput) :
    ofTokens (s ++ [eof]) = ofCursor ⟨s, eof.line, 0, []⟩ := by
  change ofCursor (Cursor.ofTokens (s ++ [eof])) = _
  rw [Cursor.ofTokens_append hs]
  simp [Cursor.ofTokens, heof]

/-- Contained tokens are read as one declaration or error, with nothing behind it. -/
theorem ofTokens_contained {s behind : List Token} {eof : Token}
    (hs : ∀ t ∈ s, t.kind ≠ .endOfInput) (heof : eof.kind = .endOfInput) (pos : 0 < s.length)
    (hcontained : Contained ⟨s, eof.line, 0, []⟩ (declaration ⟨s, eof.line, 0, []⟩))
    (hbounded : Bounded s behind) :
    ofTokens (s ++ [eof]) =
      ⟨(recover (declaration ⟨s, eof.line, 0, []⟩) pos).value.toList,
        (recover (declaration ⟨s, eof.line, 0, []⟩) pos).next.reports,
        (recover (declaration ⟨s, eof.line, 0, []⟩) pos).next.nextId⟩ := by
  have hsome : ¬(Cursor.mk s eof.line 0 []).size = 0 := Nat.pos_iff_ne_zero.1 pos
  have hend := hcontained.rest_recover hbounded pos
  rw [ofTokens_eq hs heof, ofCursor_some hsome rfl rfl, ofCursor_none hend, List.append_nil]

section

variable {P s Q : List Token} {eof eof' t : Token} {rest : List Token}
  (hP : ∀ t ∈ P, t.kind ≠ .endOfInput) (heof : eof.kind = .endOfInput)
  (hclean : (ofTokens (P ++ [eof])).diagnostics = []) (hs : ∀ t ∈ s, t.kind ≠ .endOfInput)
  (hrest : s = t :: rest)

/-- The cursor behind sound declarations, before more tokens that are no end of input. -/
theorem ofTokensFrom_append (hs : ∀ t ∈ s, t.kind ≠ .endOfInput) (id : NodeId) :
    Cursor.ofTokensFrom id (s ++ Q) =
      ⟨s ++ (Cursor.ofTokens Q).rest, (Cursor.ofTokens Q).endLine, id, []⟩ := by
  change { Cursor.ofTokens (s ++ Q) with nextId := id } = _
  rw [Cursor.ofTokens_append hs]
  rfl

include hP heof hclean hs hrest

theorem ofTokens_behind_cons (helse : t.kind ≠ .else_) {later : Reading}
    (hlater : ofCursor ⟨s ++ (Cursor.ofTokens Q).rest, (Cursor.ofTokens Q).endLine,
      (ofTokens (P ++ [eof])).idCount, []⟩ = later) :
    ofTokens (P ++ (s ++ Q)) = ⟨(ofTokens (P ++ [eof])).statements ++ later.statements,
      later.diagnostics, later.idCount⟩ := by
  refine ofTokens_behind hP heof hclean (fun t' ht' ↦ ?_) (ofTokensFrom_append hs _ ▸ hlater)
  rw [Cursor.ofTokens_append hs, hrest] at ht'
  cases ht'
  exact helse

/-- Tokens between sound declarations and others, if an error in them is contained in them and
bounded by them: the whole is read in three parts. -/
theorem ofTokens_between (heof' : eof'.kind = .endOfInput) (hsimple : isSimple t.kind = true)
    (helse : t.kind ≠ .else_)
    (hcontained : Contained ⟨s, eof'.line, 0, []⟩ (declaration ⟨s, eof'.line, 0, []⟩))
    (hbounded : Bounded s (Cursor.ofTokens Q).rest) :
    ofTokens (P ++ (s ++ Q)) =
      ((ofTokens (P ++ [eof])).join (ofTokens (s ++ [eof']))).join (ofTokens Q) := by
  let c : Cursor := ⟨s, eof'.line, 0, []⟩
  let id := (ofTokens (P ++ [eof])).idCount
  let m : Cursor := ⟨s ++ (Cursor.ofTokens Q).rest, (Cursor.ofTokens Q).endLine, id, []⟩
  let μ : Elsewhere := ⟨⟨id, 0⟩, [], (Cursor.ofTokens Q).rest, (Cursor.ofTokens Q).endLine, False⟩
  have hmoved : Moved μ c m := by
    refine ⟨?_, (Nat.zero_add _).symm, rfl, rfl, False.elim⟩
    change s ++ _ = s.map (Token.later 0) ++ _
    rw [Token.map_later_zero]
  have hpos : 0 < c.size := by
    change 0 < s.length
    rw [hrest]
    exact Nat.succ_pos _
  have hpos' : ¬m.size = 0 := by
    change ¬(s ++ (Cursor.ofTokens Q).rest).length = 0
    rw [hrest]
    exact Nat.succ_ne_zero _
  let step := recover (declaration c) hpos
  obtain ⟨hvalue, hnext⟩ := hcontained.recover (follows_simple hrest hsimple hmoved) hbounded rfl
    hpos (Nat.pos_of_ne_zero hpos')
  have hthere : ofCursor m =
      ⟨(step.value.map (Stmt.shift ⟨id, 0⟩)).toList ++
          Stmt.shiftAll ⟨step.next.nextId + id, 0⟩ (ofTokens Q).statements,
        step.next.reports ++ (ofTokens Q).diagnostics,
        step.next.nextId + id + (ofTokens Q).idCount⟩ := by
    rw [ofCursor_some hpos' hvalue hnext, ofCursor_eq_join]
    rfl
  have halone : ofTokens (s ++ [eof']) = ⟨step.value.toList, step.next.reports, step.next.nextId⟩ :=
    ofTokens_contained hs heof' hpos hcontained hbounded
  rw [ofTokens_behind_cons hP heof hclean hs hrest helse hthere, halone]
  unfold join
  rw [hclean]
  cases step.value with
  | none => simp [id, Nat.add_comm, Stmt.shiftAll]
  | some v => simp [id, Nat.add_comm, Stmt.shiftAll]

end

end Reading

end Lox
