import Lox.Proofs.Token.Passing

/-!
The items of a text and the bytes they stand for. Piece by piece, what the scanner has just passed
is what the item tells of, or else blank; so the text is laid out in items and blanks from its
first byte to its last.
-/

set_option autoImplicit false

namespace Lox

namespace Scanner

open Scan

/-- The scanner yields these items and then nothing any more. Each stands with the scanner that
has just yielded it. -/
inductive Yields : Scanner → List (Item × Scanner) → Prop
  | ended {s : Scanner} (h : s.next = some (none, s)) : Yields s []
  | item {s s' : Scanner} {item : Item} {later : List (Item × Scanner)}
    (h : s.next = some (some item, s')) (hlater : Yields s' later) : Yields s ((item, s') :: later)

end Scanner

/-- A row of bytes of a text, from the first up to the last, which is not of them. -/
structure Span where
  first : Nat
  last : Nat

namespace Span

open Scan

def Has (b : Span) (i : Nat) : Prop := b.first ≤ i ∧ i < b.last

def text? (b : Span) (source : String) : Option String := Scanner.slice? source b.first b.last

/-- These bytes are what the item tells of. -/
def Shows (source : String) (b : Span) : Item → Prop
  | .token t => b.text? source = some t.lexeme ∧ t.kind ≠ .endOfInput ∧
      ∀ contents, t.kind = .string contents →
        (Span.mk (b.first + 1) (b.last - 1)).text? source = some contents
  | .error _ (.unexpectedCharacter c) => b.text? source = some (String.singleton c)
  | .error _ .unterminatedString => b.last = source.utf8ByteSize ∧
      ∃ contents, b.text? source = some ("\"" ++ contents) ∧ '"' ∉ contents.toList

/-- These bytes are a blank, or a comment up to a newline or the end of the text. -/
def Blank (source : String) (b : Span) : Prop :=
  (∃ c ∈ [' ', '\t', '\r', '\n'], b.text? source = some (String.singleton c)) ∨
    ∃ contents, b.text? source = some ("//" ++ contents) ∧ '\n' ∉ contents.toList ∧
      (b.last = source.utf8ByteSize ∨ (Span.mk b.last (b.last + 1)).text? source = some "\n")

end Span

def Scanner.span (s : Scanner) : Span := ⟨s.start, s.current⟩

/-- From the byte `first` on, the text is what was found and blanks. -/
structure Covers (source : String) (first : Nat) (found : List (Scan.Item × Scanner))
    (blanks : List Span) : Prop where
  ordered : found.Pairwise fun x y ↦ x.2.current ≤ y.2.start
  shown : ∀ x ∈ found, first ≤ x.2.start ∧ x.2.start < x.2.current ∧ x.2.span.Shows source x.1
  blank : ∀ b ∈ blanks, first ≤ b.first ∧ b.Blank source
  outside : ∀ i, first ≤ i → i < source.utf8ByteSize →
    ((∃ b ∈ blanks, b.Has i) ↔ ¬∃ x ∈ found, x.2.span.Has i)

namespace Covers

variable {source : String} {first middle : Nat} {found : List (Scan.Item × Scanner)}
  {blanks : List Span}

theorem nothing : Covers source source.utf8ByteSize [] [] where
  ordered := .nil
  shown := nofun
  blank := nofun
  outside _ hi hi' := absurd hi' (Nat.not_lt.2 hi)

theorem item (h : Covers source middle found blanks) {item : Scan.Item} {s : Scanner}
    (hstart : s.start = first) (hcurrent : s.current = middle) (hlt : first < middle)
    (hshows : s.span.Shows source item) : Covers source first ((item, s) :: found) blanks where
  ordered := List.pairwise_cons.2 ⟨fun x hx ↦ hcurrent ▸ (h.shown x hx).1, h.ordered⟩
  shown x hx := by
    rcases List.mem_cons.1 hx with rfl | hx
    · exact ⟨Nat.le_of_eq hstart.symm, by rw [hstart, hcurrent]; exact hlt, hshows⟩
    · obtain ⟨hle, hx⟩ := h.shown x hx
      exact ⟨by omega, hx⟩
  blank b hb := ⟨Nat.le_trans (Nat.le_of_lt hlt) (h.blank b hb).1, (h.blank b hb).2⟩
  outside i hi hi' := by
    have hhas : s.span.Has i ↔ i < middle := by
      change s.start ≤ i ∧ i < s.current ↔ _
      rw [hstart, hcurrent]
      exact and_iff_right hi
    simp only [List.exists_mem_cons_iff, hhas]
    by_cases hmiddle : i < middle
    · refine iff_of_false ?_ (fun hnot ↦ hnot (Or.inl hmiddle))
      rintro ⟨b, hb, hbi⟩
      have hle := (h.blank b hb).1
      have hbi := hbi.1
      omega
    · rw [h.outside i (Nat.le_of_not_lt hmiddle) hi']
      simp [hmiddle]

theorem blank_cons (h : Covers source middle found blanks) (hlt : first < middle)
    (hblank : (Span.mk first middle).Blank source) :
    Covers source first found (⟨first, middle⟩ :: blanks) where
  ordered := h.ordered
  shown x hx := ⟨Nat.le_trans (Nat.le_of_lt hlt) (h.shown x hx).1, (h.shown x hx).2⟩
  blank b hb := by
    rcases List.mem_cons.1 hb with rfl | hb
    · exact ⟨Nat.le_refl _, hblank⟩
    · exact ⟨Nat.le_trans (Nat.le_of_lt hlt) (h.blank b hb).1, (h.blank b hb).2⟩
  outside i hi hi' := by
    have hhas : (Span.mk first middle).Has i ↔ i < middle := and_iff_right hi
    simp only [List.exists_mem_cons_iff, hhas]
    by_cases hmiddle : i < middle
    · refine iff_of_true (Or.inl hmiddle) ?_
      rintro ⟨x, hx, hxi⟩
      have hle := (h.shown x hx).1
      have hxi : x.2.start ≤ i := hxi.1
      omega
    · rw [← h.outside i (Nat.le_of_not_lt hmiddle) hi']
      simp [hmiddle]

end Covers

namespace Scan

/-- The characters of a piece are what its content says. -/
def Piece.Told (p : Piece) : Prop :=
  match p.content with
  | .blank => (∃ c ∈ [' ', '\t', '\r', '\n'], p.lexeme = [c]) ∨
      ∃ contents, p.lexeme = '/' :: '/' :: contents ∧ '\n' ∉ contents ∧
        p.rest.head? ∈ [none, some '\n']
  | .token kind => kind ≠ .endOfInput ∧
      ∀ contents, kind = .string contents → p.lexeme = '"' :: contents.toList ++ ['"']
  | .error (.unexpectedCharacter c) => p.lexeme = [c]
  | .error .unterminatedString =>
    p.rest = [] ∧ ∃ contents, p.lexeme = '"' :: contents ∧ '"' ∉ contents

theorem told_of_fixed {kind : Token.Kind} (lexeme rest : List Char)
    (h : kind ≠ .endOfInput ∧ ∀ contents, kind ≠ .string contents) :
    (Piece.mk (.token kind) lexeme rest).Told :=
  ⟨h.1, fun contents hkind ↦ absurd hkind (h.2 contents)⟩

theorem told_mark {c : Char} {kind : Token.Kind} (h : mark? c = some kind) (rest : List Char) :
    (Piece.mk (.token kind) [c] rest).Told := by
  apply told_of_fixed
  unfold mark? at h
  split at h <;> cases h <;> exact ⟨nofun, nofun⟩

theorem told_extended {c : Char} {kinds : Token.Kind × Token.Kind} (h : extensible? c = some kinds)
    (cs : List Char) : (extended c kinds cs).Told := by
  unfold extensible? at h
  unfold extended
  split at h <;> cases h <;> split <;> exact told_of_fixed _ _ ⟨nofun, nofun⟩

theorem told_slash (cs : List Char) : (slash cs).Told := by
  unfold slash
  split
  next rest =>
    refine Or.inr ⟨_, rfl, fun h ↦ ?_, ?_⟩
    · exact absurd (List.mem_takeWhile_imp h) (by decide)
    · have hhead := List.head?_dropWhile_not notNewline rest
      change (rest.dropWhile notNewline).head? ∈ _
      cases hrest : (rest.dropWhile notNewline).head? with
      | none => exact List.mem_cons_self
      | some d =>
        rw [hrest] at hhead
        have hnewline : d = '\n' := by simpa [notNewline] using hhead
        simp [hnewline]
  next => exact told_of_fixed _ _ ⟨nofun, nofun⟩

theorem told_string (cs : List Char) : (string cs).Told := by
  unfold string
  dsimp only
  split
  next quote rest h =>
    refine ⟨nofun, fun contents hcontents ↦ ?_⟩
    have hhead := List.head?_dropWhile_not notQuote cs
    rw [h] at hhead
    have hquote : quote = '"' := by simpa [notQuote] using hhead
    have hcontents : String.ofList (cs.takeWhile notQuote) = contents := by simpa using hcontents
    rw [hquote, ← hcontents, String.toList_ofList]
  next h =>
    refine ⟨rfl, cs, rfl, fun hmem ↦ ?_⟩
    exact absurd (List.dropWhile_eq_nil_iff.1 h _ hmem) (by decide)

theorem told_number (c : Char) (cs : List Char) : (number c cs).Told := by
  unfold number
  dsimp only
  split
  · split <;> exact told_of_fixed _ _ ⟨nofun, nofun⟩
  · exact told_of_fixed _ _ ⟨nofun, nofun⟩

theorem told_word (c : Char) (cs : List Char) : (word c cs).Told := by
  apply told_of_fixed
  unfold Token.Kind.ofWord
  cases h : Token.keywords.lookup (String.ofList (c :: cs.takeWhile isWordPart)) with
  | none => exact ⟨nofun, nofun⟩
  | some kind =>
    obtain ⟨_, _, hsplit, -⟩ := List.lookup_eq_some_iff.1 h
    have hmem : (_, kind) ∈ Token.keywords := hsplit ▸ List.mem_append_right _ List.mem_cons_self
    have hall : ∀ pair ∈ Token.keywords,
        pair.2 ≠ .endOfInput ∧ ∀ contents, pair.2 ≠ .string contents := by
      simp [Token.keywords]
    exact hall _ hmem

theorem told_piece (c : Char) (cs : List Char) : (piece c cs).Told := by
  unfold piece
  split
  next kind h => exact told_mark h cs
  next kinds h => exact told_extended h cs
  next =>
    split
    next h =>
      refine Or.inl ⟨c, ?_, rfl⟩
      simp only [isBlank, Bool.or_eq_true, beq_iff_eq] at h
      rcases h with ((rfl | rfl) | rfl) | rfl <;> decide
    split
    · exact told_slash cs
    split
    · exact told_string cs
    split
    · exact told_number c cs
    split
    · exact told_word c cs
    · exact rfl

/-- No piece is read as the end of input. -/
theorem Piece.Told.kind_ne {p : Piece} (h : p.Told) {line : Nat} {t : Token}
    (hitem : p.item? line = some (.token t)) : t.kind ≠ .endOfInput := by
  unfold Piece.item? at hitem
  unfold Piece.Told at h
  split at hitem
  next => cases hitem
  next kind hcontent =>
    rw [hcontent] at h
    cases hitem
    exact h.1
  next => cases hitem

end Scan

namespace Scanner

open Scan

variable {s : Scanner} {before rest : List Char}

theorem utf8Len_pos {cs : List Char} (h : cs ≠ []) : 0 < String.utf8Len cs :=
  Nat.pos_of_ne_zero fun hzero ↦ h (String.utf8Len_eq_zero.1 hzero)

theorem Yields.of_next_eq {s' : Scanner} {row : List (Item × Scanner)} (hrow : s'.Yields row)
    (h : s.next = s'.next) (hne : row ≠ []) : s.Yields row := by
  cases hrow with
  | ended => exact absurd rfl hne
  | item hnext hlater => exact .item (h.trans hnext) hlater

/-- Beyond the last item there is nothing, however often it is asked for. -/
theorem Yields.next_last {row : List (Item × Scanner)} {item : Item} {last : Scanner}
    (h : s.Yields (row ++ [(item, last)])) : last.next = some (none, last) := by
  induction row generalizing s with
  | nil =>
    cases h with
    | item _ hlater =>
      cases hlater with
      | ended hover => exact hover
  | cons x row ih =>
    cases h with
    | item _ hlater => exact ih hlater

/-- The bytes of the first piece of what follows. -/
theorem At.shows_piece {c : Char} (h : s.At before (c :: rest)) {item : Item} {line : Nat}
    (hitem : (piece c rest).item? line = some item) :
    (s.begun.passed (piece c rest).lexeme).span.Shows s.source item := by
  have hsplit : s.begun.At before ((piece c rest).lexeme ++ (piece c rest).rest) := by
    rw [(piece_splits c rest).2]
    exact h.begun
  have htold := told_piece c rest
  have htext := hsplit.lexeme _ rfl
  have hsize := (At.passed _ hsplit).size
  unfold Piece.item? at hitem
  unfold Piece.Told at htold
  split at hitem
  next => cases hitem
  next kind hcontent =>
    rw [hcontent] at htold
    cases hitem
    refine ⟨htext, htold.1, fun contents hkind ↦ ?_⟩
    have hlexeme := htold.2 contents hkind
    have hsource := hsplit.source
    rw [hlexeme] at hsource
    have hcontents := slice?_middle (before ++ ['"']) contents.toList ('"' :: (piece c rest).rest)
      (hsource.trans (by simp)) rfl rfl
    rw [String.ofList_toList] at hcontents
    have hcurrent : s.current = String.utf8Len before := h.current
    have hfirst : s.current + 1 = String.utf8Len (before ++ ['"']) := by
      rw [String.utf8Len_append, hcurrent]
      rfl
    have hlast : s.current + String.utf8Len (piece c rest).lexeme - 1 =
        String.utf8Len (before ++ ['"']) + String.utf8Len contents.toList := by
      rw [hlexeme, ← hfirst]
      simp only [List.cons_append, String.utf8Len_append, String.utf8Len_cons, String.utf8Len_nil]
      change _ + (_ + (0 + 1) + 1) - 1 = _
      omega
    change slice? s.source (s.current + 1)
      (s.current + String.utf8Len (piece c rest).lexeme - 1) = _
    rw [hfirst, hlast]
    exact hcontents
  next cause hcontent =>
    rw [hcontent] at htold
    cases hitem
    cases cause with
    | unexpectedCharacter d =>
      exact htext.trans (by rw [show (piece c rest).lexeme = [d] from htold]; rfl)
    | unterminatedString =>
      obtain ⟨hrest, contents, hlexeme, hquote⟩ := htold
      rw [hrest] at hsize
      refine ⟨hsize.symm, String.ofList contents, htext.trans ?_, by rwa [String.toList_ofList]⟩
      rw [hlexeme]
      exact congrArg some (@String.ofList_append ['"'] _)

theorem At.blank_piece {c : Char} (h : s.At before (c :: rest)) {line : Nat}
    (hblank : (piece c rest).item? line = none) :
    (Span.mk s.current (s.current + String.utf8Len (piece c rest).lexeme)).Blank s.source := by
  have hsplit : s.begun.At before ((piece c rest).lexeme ++ (piece c rest).rest) := by
    rw [(piece_splits c rest).2]
    exact h.begun
  have htold := told_piece c rest
  have htext := hsplit.lexeme _ rfl
  have hat := At.passed _ hsplit
  unfold Piece.item? at hblank
  unfold Piece.Told at htold
  split at hblank
  next hcontent =>
    rw [hcontent] at htold
    rcases htold with ⟨d, hd, hlexeme⟩ | ⟨contents, hlexeme, hline, hnext⟩
    · exact Or.inl ⟨d, hd, htext.trans (by rw [hlexeme]; rfl)⟩
    · refine Or.inr ⟨String.ofList contents, htext.trans ?_, by rwa [String.toList_ofList], ?_⟩
      · rw [hlexeme]
        exact congrArg some (@String.ofList_append ['/', '/'] _)
      · cases hrest : (piece c rest).rest with
        | nil =>
          rw [hrest] at hat
          exact Or.inl hat.size.symm
        | cons d ds =>
          rw [hrest] at hat hnext
          have hd : d = '\n' := by simpa using hnext
          subst hd
          exact Or.inr (hat.begun.lexeme ['\n'] rfl)
  next => cases hblank
  next => cases hblank

theorem At.yields {line : Nat} (h : s.At before rest) (hline : s.line = line) :
    ∃ found last blanks,
      s.Yields (found ++ [(.token ⟨.endOfInput, "", last.line⟩, last)]) ∧
        itemsFrom line rest = found.map Prod.fst ++ [.token ⟨.endOfInput, "", last.line⟩] ∧
        Covers s.source s.current found blanks := by
  fun_induction itemsFrom line rest generalizing s before
  case case1 line =>
    subst hline
    refine ⟨[], { s with current := s.current + 1 }, [], .item h.next_nil (.ended ?_), rfl, ?_⟩
    · have hsize : s.current = s.size := h.size.symm
      unfold Scanner.next
      change (if s.current + 1 < s.size then _ else if s.current + 1 = s.size then _ else _) = _
      rw [if_neg (by omega), if_neg (by omega)]
    · rw [show s.current = s.source.utf8ByteSize from h.size.symm]
      exact .nothing
  case case2 line c cs p last later item hitem ih =>
    subst hline
    have hat : (s.begun.passed p.lexeme).At (before ++ p.lexeme) p.rest :=
      At.passed _ (by rw [(piece_splits c cs).2]; exact h.begun)
    have hnext : s.next = some (some item, s.begun.passed p.lexeme) := by
      have hitem : (piece c cs).item? (s.begun.passed (piece c cs).lexeme).line = some item := hitem
      refine h.next_cons.trans ?_
      rw [hitem]
    obtain ⟨found, last, blanks, hyields, hitems, hcovers⟩ := ih hat rfl
    refine ⟨(item, s.begun.passed p.lexeme) :: found, last, blanks, .item hnext hyields,
      congrArg (item :: ·) hitems, ?_⟩
    exact hcovers.item rfl rfl (Nat.lt_add_of_pos_right (utf8Len_pos (piece_splits c cs).1))
      (h.shows_piece hitem)
  case case3 line c cs p last later hitem ih =>
    subst hline
    have hat : (s.begun.passed p.lexeme).At (before ++ p.lexeme) p.rest :=
      At.passed _ (by rw [(piece_splits c cs).2]; exact h.begun)
    have hnext : s.next = (s.begun.passed p.lexeme).next := by
      have hitem : (piece c cs).item? (s.begun.passed (piece c cs).lexeme).line = none := hitem
      refine h.next_cons.trans ?_
      rw [hitem]
    obtain ⟨found, last, blanks, hyields, hitems, hcovers⟩ := ih hat rfl
    refine ⟨found, last, _, hyields.of_next_eq hnext (by simp), hitems, hcovers.blank_cons
      (Nat.lt_add_of_pos_right (utf8Len_pos (piece_splits c cs).1)) (h.blank_piece hitem)⟩

/-- A scanner yields the items of a text, the last of them the end of input, and never asks for
anything of the text that is not there. Where it has passed an item is what the item tells of; and
what it has passed besides is blank. -/
theorem scans_everything (source : String) :
    ∃ found last,
      (ofSource source).Yields (found ++ [(.token ⟨.endOfInput, "", last.line⟩, last)]) ∧
        last.next = some (none, last) ∧
        items source = found.map Prod.fst ++ [.token ⟨.endOfInput, "", last.line⟩] ∧
        (found.Pairwise fun x y ↦ x.2.current ≤ y.2.start) ∧
        (∀ x ∈ found, x.2.start < x.2.current ∧ x.2.span.Shows source x.1) ∧
        ∃ blanks : List Span, (∀ b ∈ blanks, b.Blank source) ∧
          ∀ i < source.utf8ByteSize, (∃ b ∈ blanks, b.Has i) ↔ ¬∃ x ∈ found, x.2.span.Has i := by
  have hat : (ofSource source).At [] source.toList := ⟨String.ofList_toList.symm, rfl⟩
  obtain ⟨found, last, blanks, hyields, hitems, hcovers⟩ := hat.yields rfl
  exact ⟨found, last, hyields, hyields.next_last, hitems, hcovers.ordered,
    fun x hx ↦ (hcovers.shown x hx).2, blanks, fun b hb ↦ (hcovers.blank b hb).2,
    fun i hi ↦ hcovers.outside i (Nat.zero_le i) hi⟩

end Scanner

end Lox
