import Lox.Proofs.Token.Joining

/-!
Lexemes, apart from how they are found: which rows of characters are one token by themselves, and
of which kind. Scanning finds a lexeme wherever it ends before the end of the text or before a
character that cannot go on with it (`Lexeme.piece`), and what it finds is the longest lexeme that
the text begins with (`Lexeme.length_le`). So the tokens of a text are lexemes, and a text is one
token by itself exactly if it is a lexeme (`readsAs_iff`). Names are made of letters and digits, and
numbers of digits and a point.
-/

set_option autoImplicit false

namespace Lox

namespace Scan

/-- The characters are one token of this kind. -/
inductive Lexeme : Token.Kind → List Char → Prop
  | mark {c : Char} {kind : Token.Kind} (h : mark? c = some kind) : Lexeme kind [c]
  | alone {c : Char} {kinds : Token.Kind × Token.Kind} (h : extensible? c = some kinds) :
    Lexeme kinds.1 [c]
  | extended {c : Char} {kinds : Token.Kind × Token.Kind} (h : extensible? c = some kinds) :
    Lexeme kinds.2 [c, '=']
  | slash : Lexeme .slash ['/']
  | string {contents : List Char} (h : ∀ c ∈ contents, notQuote c) :
    Lexeme (.string (String.ofList contents)) ('"' :: contents ++ ['"'])
  | whole {c : Char} {cs : List Char} (h : isDigit c) (h' : ∀ d ∈ cs, isDigit d) :
    Lexeme (.number (Number.ofDigits (wholeNumber (c :: cs)) 0)) (c :: cs)
  | point {c d : Char} {cs ds : List Char} (h : isDigit c) (h' : ∀ e ∈ cs, isDigit e)
    (hd : isDigit d) (hds : ∀ e ∈ ds, isDigit e) :
    Lexeme (.number (Number.ofDigits (wholeNumber (c :: cs ++ d :: ds)) (d :: ds).length))
      (c :: cs ++ '.' :: d :: ds)
  | word {c : Char} {cs : List Char} (h : isWordStart c) (h' : ∀ d ∈ cs, isWordPart d) :
    Lexeme (Token.Kind.ofWord (String.ofList (c :: cs))) (c :: cs)

/-- A lexeme that ends before this character ends there. -/
structure Severs (c : Char) : Prop where
  part : isWordPart c = false
  equal : c ≠ '='
  slash : c ≠ '/'
  point : c ≠ '.'

instance (c : Char) : Decidable (Severs c) :=
  decidable_of_iff (isWordPart c = false ∧ c ≠ '=' ∧ c ≠ '/' ∧ c ≠ '.')
    ⟨fun ⟨h₁, h₂, h₃, h₄⟩ ↦ ⟨h₁, h₂, h₃, h₄⟩, fun h ↦ ⟨h.1, h.2, h.3, h.4⟩⟩

/-- No lexeme before these characters goes on into them. -/
def Severed (rest : List Char) : Prop := ∀ c ∈ rest.head?, Severs c

theorem severed_nil : Severed [] := nofun

theorem severed_cons {c : Char} (h : Severs c) (cs : List Char) : Severed (c :: cs) := by
  rintro d ⟨⟩
  exact h

/-! ### The piece that a text begins with -/

theorem piece_extensible {c : Char} {kinds : Token.Kind × Token.Kind}
    (h : extensible? c = some kinds) (cs : List Char) : piece c cs = extended c kinds cs := by
  have hmark : mark? c = none := by
    unfold extensible? at h
    split at h <;> first | rfl | cases h
  simp [piece, hmark, h]

theorem piece_part {c : Char} (h : isWordPart c) (cs : List Char) :
    piece c cs = if isDigit c then number c cs else if isWordStart c then word c cs
      else ⟨.error (.unexpectedCharacter c), [c], cs⟩ := by
  have hmark : mark? c = none := by
    unfold mark?
    split <;> first | rfl | exact absurd h (by decide)
  have hextensible : extensible? c = none := by
    unfold extensible?
    split <;> first | rfl | exact absurd h (by decide)
  have hne : ∀ d, isWordPart d = false → c ≠ d := by
    rintro d hd rfl
    exact absurd h (by simp [hd])
  have hblank : isBlank c = false := by
    simp [isBlank, hne ' ' rfl, hne '\r' rfl, hne '\t' rfl, hne '\n' rfl]
  simp [piece, hmark, hextensible, hblank, hne '/' rfl, hne '"' rfl]

theorem isWordPart_of_isDigit {c : Char} (h : isDigit c) : isWordPart c := by simp [isWordPart, h]

theorem isDigit_of_isWordStart {c : Char} (h : isWordStart c) : isDigit c = false := by
  by_contra hdigit
  have hdigit : '0' ≤ c ∧ c ≤ '9' := by simpa [isDigit] using hdigit
  simp only [isWordStart, Bool.or_eq_true, Bool.and_eq_true, decide_eq_true_eq, beq_iff_eq] at h
  rcases h with (h | h) | rfl
  · exact absurd (h.1.trans hdigit.2) (by decide)
  · exact absurd (h.1.trans hdigit.2) (by decide)
  · exact absurd hdigit.2 (by decide)

theorem piece_digit {c : Char} (h : isDigit c) (cs : List Char) : piece c cs = number c cs := by
  rw [piece_part (isWordPart_of_isDigit h), if_pos h]

theorem piece_letter {c : Char} (h : isWordStart c) (cs : List Char) : piece c cs = word c cs := by
  have hdigit := isDigit_of_isWordStart h
  rw [piece_part (by simp [isWordPart, h]), if_neg (by simp [hdigit]), if_pos h]

/-- What is taken while a condition holds, where it holds in all of a row and not after it. -/
theorem takeWhile_exact {p : Char → Bool} {cs : List Char} (rest : List Char) (h : ∀ c ∈ cs, p c)
    (hrest : ∀ c ∈ rest.head?, p c = false) :
    (cs ++ rest).takeWhile p = cs ∧ (cs ++ rest).dropWhile p = rest := by
  rw [List.takeWhile_append_of_pos h, List.dropWhile_append_of_pos h]
  cases rest with
  | nil => exact ⟨List.append_nil cs, rfl⟩
  | cons c rest => simp [hrest c rfl]

theorem Severed.isDigit {rest : List Char} (h : Severed rest) :
    ∀ c ∈ rest.head?, isDigit c = false := by
  intro c hc
  by_contra hdigit
  have hpart := isWordPart_of_isDigit (Bool.eq_true_of_not_eq_false hdigit)
  exact absurd hpart (by simp [(h c hc).part])

/-- A text that begins with a lexeme, and does not go on with it, has it as its first piece. -/
theorem Lexeme.piece {kind : Token.Kind} {cs rest : List Char} (h : Lexeme kind cs)
    (hrest : Severed rest) :
    ∃ c ds, cs = c :: ds ∧ piece c (ds ++ rest) = ⟨.token kind, c :: ds, rest⟩ := by
  cases h with
  | mark h => exact ⟨_, _, rfl, by simp [Scan.piece, h]⟩
  | alone h =>
    refine ⟨_, _, rfl, (piece_extensible h _).trans ?_⟩
    cases rest with
    | nil => rfl
    | cons d rest => simp [Scan.extended, (hrest d rfl).equal]
  | extended h => exact ⟨_, _, rfl, piece_extensible h _⟩
  | slash =>
    refine ⟨_, _, rfl, ?_⟩
    change Scan.slash rest = _
    cases rest with
    | nil => rfl
    | cons d rest => simp [Scan.slash, (hrest d rfl).slash]
  | @string contents h =>
    refine ⟨_, _, rfl, ?_⟩
    obtain ⟨htake, hdrop⟩ := takeWhile_exact ('"' :: rest) h (by rintro _ ⟨⟩; rfl)
    change Scan.string (contents ++ ['"'] ++ rest) = _
    simp [Scan.string, htake, hdrop]
  | whole h h' =>
    refine ⟨_, _, rfl, (piece_digit h _).trans ?_⟩
    obtain ⟨htake, hdrop⟩ := takeWhile_exact rest h' hrest.isDigit
    unfold number
    dsimp only
    rw [htake, hdrop]
    split
    next d ds => exact absurd rfl (hrest _ rfl).point
    next => rfl
  | @point c d cs ds h h' hd hds =>
    refine ⟨_, _, rfl, (piece_digit h _).trans ?_⟩
    obtain ⟨htake, hdrop⟩ := takeWhile_exact ('.' :: d :: (ds ++ rest)) h'
      (by rintro _ ⟨⟩; rfl)
    obtain ⟨htake', hdrop'⟩ := takeWhile_exact rest hds hrest.isDigit
    simp [number, htake, hdrop, hd, htake', hdrop']
  | word h h' =>
    refine ⟨_, _, rfl, (piece_letter h _).trans ?_⟩
    obtain ⟨htake, hdrop⟩ := takeWhile_exact rest h' fun c hc ↦ (hrest c hc).part
    simp [Scan.word, htake, hdrop]

theorem lexeme_of_extended {c : Char} {kinds : Token.Kind × Token.Kind} {kind : Token.Kind}
    (hc : extensible? c = some kinds) {cs : List Char}
    (h : (extended c kinds cs).content = .token kind) :
    Lexeme kind (extended c kinds cs).lexeme := by
  unfold extended at h ⊢
  split at h
  · cases h
    exact .extended hc
  · cases h
    exact .alone hc

theorem lexeme_of_slash {cs : List Char} {kind : Token.Kind}
    (h : (Scan.slash cs).content = .token kind) : Lexeme kind (Scan.slash cs).lexeme := by
  unfold Scan.slash at h ⊢
  split at h
  · cases h
  · cases h
    exact .slash

theorem lexeme_of_string {cs : List Char} {kind : Token.Kind}
    (h : (Scan.string cs).content = .token kind) : Lexeme kind (Scan.string cs).lexeme := by
  unfold Scan.string at h ⊢
  dsimp only at h ⊢
  split at h
  next quote rest hdrop =>
    cases h
    have hhead := List.head?_dropWhile_not notQuote cs
    rw [hdrop] at hhead
    have hclosing : quote = '"' := by simpa [notQuote] using hhead
    rw [hclosing]
    exact .string fun c hc ↦ List.mem_takeWhile_imp hc
  next => cases h

theorem lexeme_of_number {c : Char} (hc : isDigit c) {cs : List Char} {kind : Token.Kind}
    (h : (number c cs).content = .token kind) : Lexeme kind (number c cs).lexeme := by
  have hwhole : ∀ d ∈ cs.takeWhile isDigit, isDigit d := fun d hd ↦ List.mem_takeWhile_imp hd
  unfold number at h ⊢
  dsimp only at h ⊢
  split at h
  next d ds hdrop =>
    by_cases hd : isDigit d
    · rw [if_pos hd] at h ⊢
      cases h
      exact .point hc hwhole hd fun e he ↦ List.mem_takeWhile_imp he
    · rw [if_neg hd] at h ⊢
      cases h
      exact .whole hc hwhole
  next =>
    cases h
    exact .whole hc hwhole

/-- A piece that is a token is a lexeme. -/
theorem lexeme_of_piece {c : Char} {cs : List Char} {kind : Token.Kind}
    (h : (Scan.piece c cs).content = .token kind) : Lexeme kind (Scan.piece c cs).lexeme := by
  unfold Scan.piece at h ⊢
  split
  next k hmark =>
    rw [hmark] at h
    cases h
    exact .mark hmark
  next kinds hmark hextensible =>
    rw [hmark, hextensible] at h
    exact lexeme_of_extended hextensible h
  next hmark hextensible =>
    rw [hmark, hextensible] at h
    dsimp only at h
    by_cases hblank : isBlank c
    · rw [if_pos hblank] at h
      cases h
    rw [if_neg hblank] at h ⊢
    by_cases hslash : c = '/'
    · rw [if_pos hslash] at h ⊢
      exact lexeme_of_slash h
    rw [if_neg hslash] at h ⊢
    by_cases hquote : c = '"'
    · rw [if_pos hquote] at h ⊢
      exact lexeme_of_string h
    rw [if_neg hquote] at h ⊢
    by_cases hdigit : isDigit c
    · rw [if_pos hdigit] at h ⊢
      exact lexeme_of_number hdigit h
    rw [if_neg hdigit] at h ⊢
    by_cases hword : isWordStart c
    · rw [if_pos hword] at h ⊢
      cases h
      exact .word hword fun d hd ↦ List.mem_takeWhile_imp hd
    rw [if_neg hword] at h
    cases h

/-- No lexeme that a text begins with is longer than its first piece. -/
theorem Lexeme.length_le {kind : Token.Kind} {longer more cs : List Char} {c : Char}
    (h : Lexeme kind longer) (hmore : longer ++ more = c :: cs) :
    longer.length ≤ (Scan.piece c cs).lexeme.length := by
  have hpos : 1 ≤ (Scan.piece c cs).lexeme.length :=
    List.length_pos_iff.2 (piece_splits c cs).1
  have htake : ∀ {p : Char → Bool} {ds : List Char}, (∀ d ∈ ds, p d) →
      ds.length ≤ ((ds ++ more).takeWhile p).length := fun h ↦ by
    rw [List.takeWhile_append_of_pos h, List.length_append]
    exact Nat.le_add_right _ _
  cases h with
  | mark | alone | slash => exact hpos
  | extended h =>
    obtain ⟨rfl, rfl⟩ := List.cons.inj hmore
    rw [piece_extensible h]
    exact Nat.le_refl 2
  | @string contents h =>
    obtain ⟨rfl, rfl⟩ := List.cons.inj hmore
    obtain ⟨htake, hdrop⟩ := takeWhile_exact ('"' :: more) h (by rintro _ ⟨⟩; rfl)
    change _ ≤ (Scan.string (contents ++ ['"'] ++ more)).lexeme.length
    simp [Scan.string, htake, hdrop]
  | @whole d ds h h' =>
    obtain ⟨rfl, rfl⟩ := List.cons.inj hmore
    rw [piece_digit h, List.append_eq]
    have hle := htake h'
    unfold number
    dsimp only
    split
    · split <;> simp only [List.length_cons, List.length_append] <;> omega
    · simpa using hle
  | @point d e ds es h h' he hes =>
    rw [List.append_assoc] at hmore
    obtain ⟨rfl, rfl⟩ := List.cons.inj hmore
    obtain ⟨hwhole, hdrop⟩ := takeWhile_exact ('.' :: e :: (es ++ more)) h'
      (by rintro _ ⟨⟩; rfl)
    have hle := htake hes
    rw [piece_digit h]
    simp only [number, List.append_eq, List.cons_append, hwhole, hdrop, he, if_true,
      List.length_cons, List.length_append]
    omega
  | @word d ds h h' =>
    obtain ⟨rfl, rfl⟩ := List.cons.inj hmore
    rw [piece_letter h]
    exact Nat.succ_le_succ (htake h')

/-! ### Lexemes among the items of a text -/

theorem Lexeme.itemsFrom {kind : Token.Kind} {cs rest : List Char} (h : Lexeme kind cs)
    (hrest : Severed rest) (line : Nat) :
    Scan.itemsFrom line (cs ++ rest) = .token ⟨kind, String.ofList cs, line + newlines cs⟩ ::
      Scan.itemsFrom (line + newlines cs) rest := by
  obtain ⟨c, ds, rfl, hpiece⟩ := h.piece hrest
  rw [List.cons_append, itemsFrom_cons, hpiece]
  rfl

/-- Every token of a text but the end of input is a lexeme. -/
theorem lexeme_of_mem {line : Nat} {text : List Char} {t : Token}
    (h : .token t ∈ itemsFrom line text) (ht : t.kind ≠ .endOfInput) :
    Lexeme t.kind t.lexeme.toList := by
  induction text using pieces_induct generalizing line with
  | nil =>
    rw [Scan.itemsFrom, List.mem_singleton] at h
    cases h
    exact absurd rfl ht
  | cons c cs ih =>
    rw [itemsFrom_cons] at h
    rcases List.mem_append.1 h with h | h
    · have hitem := Option.mem_toList.1 h
      unfold Piece.item? at hitem
      split at hitem
      next => cases hitem
      next kind hcontent =>
        cases hitem
        rw [String.toList_ofList]
        exact lexeme_of_piece hcontent
      next => cases hitem
    · exact ih h

theorem lexeme_of_token {source : String} {t : Token} (h : t ∈ tokens source)
    (ht : t.kind ≠ .endOfInput) : Lexeme t.kind t.lexeme.toList := by
  obtain ⟨item, hitem, htoken⟩ := List.mem_filterMap.1 h
  cases item with
  | token => cases htoken; exact lexeme_of_mem hitem ht
  | error => cases htoken

/-- Scanned by itself, the text is one token of this kind. -/
def ReadsAs (text : String) (kind : Token.Kind) : Prop :=
  items text = [.token ⟨kind, text, 1 + newlines text.toList⟩,
    .token ⟨.endOfInput, "", 1 + newlines text.toList⟩]

instance (text : String) (kind : Token.Kind) : Decidable (ReadsAs text kind) :=
  inferInstanceAs (Decidable (_ = _))

theorem Lexeme.readsAs {kind : Token.Kind} {cs : List Char} (h : Lexeme kind cs) :
    ReadsAs (String.ofList cs) kind := by
  have hitems := h.itemsFrom severed_nil 1
  rw [List.append_nil, Scan.itemsFrom] at hitems
  unfold ReadsAs items
  rwa [String.toList_ofList]

theorem readsAs_iff {text : String} {kind : Token.Kind} :
    ReadsAs text kind ↔ Lexeme kind text.toList := by
  constructor
  · intro h
    obtain ⟨before, hitems, hbefore⟩ := itemsFrom_ends 1 text.toList
    have hsplit : before ++ [_] = [_] ++ [_] := hitems.symm.trans h
    obtain ⟨rfl, -⟩ := List.append_inj' hsplit rfl
    have hkind : kind ≠ .endOfInput := hbefore _ List.mem_cons_self
    exact lexeme_of_mem (h ▸ List.mem_cons_self : _ ∈ items text) hkind
  · intro h
    rw [← String.ofList_toList (s := text)]
    exact h.readsAs

/-! ### Names and numbers -/

theorem ofWord_ne_number (word : String) (value : Number) :
    Token.Kind.ofWord word ≠ .number value := by
  unfold Token.Kind.ofWord
  cases hlookup : Token.keywords.lookup word with
  | none => exact nofun
  | some kind =>
    obtain ⟨_, _, hsplit, -⟩ := List.lookup_eq_some_iff.1 hlookup
    have hkeyword : (word, kind) ∈ Token.keywords := by simp [hsplit]
    rintro rfl
    simp [Token.keywords] at hkeyword

/-- Marks are neither names nor numbers. -/
theorem mark?_ne {c : Char} {kind : Token.Kind} (h : mark? c = some kind) :
    kind ≠ .identifier ∧ ∀ value, kind ≠ .number value := by
  unfold mark? at h
  split at h <;> cases h <;> exact ⟨nofun, nofun⟩

theorem extensible?_ne {c : Char} {kinds : Token.Kind × Token.Kind}
    (h : extensible? c = some kinds) :
    (kinds.1 ≠ .identifier ∧ ∀ value, kinds.1 ≠ .number value) ∧
      kinds.2 ≠ .identifier ∧ ∀ value, kinds.2 ≠ .number value := by
  unfold extensible? at h
  split at h <;> cases h <;> exact ⟨⟨nofun, nofun⟩, nofun, nofun⟩

/-- A number is what its digits write, and has no sign. -/
theorem Lexeme.of_number {value : Number} {cs : List Char} (h : Lexeme (.number value) cs) :
    (∃ digits places, value = Number.ofDigits digits places) ∧ cs ≠ [] ∧
      ∀ c ∈ cs, isDigit c ∨ c = '.' := by
  generalize hkind : Token.Kind.number value = kind at h
  cases h with
  | mark h => exact absurd hkind.symm ((mark?_ne h).2 value)
  | alone h => exact absurd hkind.symm ((extensible?_ne h).1.2 value)
  | extended h => exact absurd hkind.symm ((extensible?_ne h).2.2 value)
  | slash | string => cases hkind
  | whole h h' =>
    cases hkind
    exact ⟨⟨_, _, rfl⟩, List.cons_ne_nil _ _,
      List.forall_mem_cons.2 ⟨.inl h, fun d hd ↦ .inl (h' d hd)⟩⟩
  | point h h' hd hds =>
    cases hkind
    exact ⟨⟨_, _, rfl⟩, List.cons_ne_nil _ _, List.forall_mem_append.2
      ⟨List.forall_mem_cons.2 ⟨.inl h, fun e he ↦ .inl (h' e he)⟩,
        List.forall_mem_cons.2 ⟨.inr rfl,
          List.forall_mem_cons.2 ⟨.inl hd, fun e he ↦ .inl (hds e he)⟩⟩⟩⟩
  | word => exact absurd hkind.symm (ofWord_ne_number _ _)

theorem Lexeme.of_identifier {cs : List Char} (h : Lexeme .identifier cs) :
    cs ≠ [] ∧ ∀ c ∈ cs, isWordPart c := by
  generalize hkind : Token.Kind.identifier = kind at h
  cases h with
  | mark h => exact absurd hkind.symm (mark?_ne h).1
  | alone h => exact absurd hkind.symm (extensible?_ne h).1.1
  | extended h => exact absurd hkind.symm (extensible?_ne h).2.1
  | slash | string | whole | point => cases hkind
  | word h h' =>
    exact ⟨List.cons_ne_nil _ _, List.forall_mem_cons.2 ⟨by simp [isWordPart, h], h'⟩⟩

end Scan

end Lox
