import Lox.Proofs.Token.Bytes
import Mathlib.Data.List.TakeWhile

/-!
Where a scanner of bytes is when it has passed characters. As long as it stands between two
characters it finds the piece of text that is next, takes no slice of the text that is not there,
and stands between two characters again.
-/

set_option autoImplicit false

namespace Lox

namespace Scanner

open Scan

variable {s : Scanner} {before rest : List Char}

/-! ### Between two characters -/

/-- The scanner stands in its text before the characters in `rest`. -/
structure At (s : Scanner) (before rest : List Char) : Prop where
  source : s.source = String.ofList (before ++ rest)
  current : s.current = String.utf8Len before

/-- The scanner after characters that it has passed. -/
def passed (s : Scanner) (cs : List Char) : Scanner :=
  { s with current := s.current + String.utf8Len cs, line := s.line + newlines cs }

@[simp] theorem passed_nil (s : Scanner) : s.passed [] = s := rfl

theorem passed_append (s : Scanner) (cs ds : List Char) :
    (s.passed cs).passed ds = s.passed (cs ++ ds) := by
  simp [passed, newlines, Nat.add_assoc]

theorem passed_cons (s : Scanner) (c : Char) (cs : List Char) :
    (s.passed [c]).passed cs = s.passed (c :: cs) := s.passed_append [c] cs

theorem At.passed (cs : List Char) (h : s.At before (cs ++ rest)) :
    (s.passed cs).At (before ++ cs) rest where
  source := h.source.trans (by rw [List.append_assoc])
  current := by
    change s.current + _ = _
    rw [h.current, String.utf8Len_append]

theorem At.size (h : s.At before rest) : s.size = s.current + String.utf8Len rest := by
  unfold Scanner.size
  rw [h.source, h.current, String.utf8ByteSize_ofList, String.utf8Len_append]

theorem At.byte? (h : s.At before rest) (i : Nat) :
    s.byte? (s.current + i) = (encoded rest)[i]? := by
  unfold Scanner.byte?
  rw [h.source, String.toByteArray_ofList, h.current]
  change (encoded (before ++ rest)).toByteArray.data[_]? = _
  rw [← Array.getElem?_toList, List.toList_data_toByteArray, encoded_append, ← length_encoded,
    List.getElem?_append_right (Nat.le_add_right _ _), Nat.add_sub_cancel_left]

theorem At.lt_size (h : s.At before rest) : s.current < s.size ↔ rest ≠ [] := by
  rw [h.size, Nat.lt_add_right_iff_pos, Nat.pos_iff_ne_zero, Ne, String.utf8Len_eq_zero]

theorem slice?_middle (before middle rest : List Char)
    (hsource : s.source = String.ofList (before ++ middle ++ rest)) {first last : Nat}
    (hfirst : first = String.utf8Len before)
    (hlast : last = String.utf8Len before + String.utf8Len middle) :
    slice? s.source first last = some (String.ofList middle) := by
  have hvalid : ∀ cs ds : List Char, s.source = String.ofList (cs ++ ds) →
      String.Pos.Raw.IsValid s.source ⟨String.utf8Len cs⟩ := fun cs ds h ↦
    String.Pos.Raw.isValid_iff_exists_append.2 ⟨String.ofList cs, String.ofList ds,
      h.trans String.ofList_append, by rw [String.rawEndPos_ofList]⟩
  subst hfirst hlast
  unfold Scanner.slice?
  have hbegin := hvalid before (middle ++ rest) (by rw [hsource, List.append_assoc])
  have hend := hvalid _ rest hsource
  rw [String.utf8Len_append] at hend
  rw [if_pos ⟨Nat.le_add_right _ _, hbegin, hend⟩, hsource, String.extract_of_valid]

/-! ### Looking at what follows, and passing it -/

theorem At.byte_head {c : Char} (h : s.At before (c :: rest)) :
    ∃ b ∈ String.utf8EncodeChar c, s.byte? s.current = some b := by
  obtain ⟨b, bs, hbs⟩ := List.exists_cons_of_ne_nil (String.utf8EncodeChar_ne_nil (c := c))
  refine ⟨b, hbs ▸ List.mem_cons_self, (h.byte? 0).trans ?_⟩
  rw [encoded_cons, hbs]
  rfl

theorem At.peek {α : Type} {f : Char → α} (h : s.At before rest) (hf : Bytewise f) :
    f s.peek = f (rest.headD (Char.ofUInt8 0)) := by
  cases rest with
  | nil =>
    unfold Scanner.peek
    rw [show s.byte? s.current = none from h.byte? 0]
    rfl
  | cons c cs =>
    obtain ⟨b, hb, hbyte⟩ := h.byte_head
    unfold Scanner.peek
    rw [hbyte]
    exact hf.byte hb

theorem At.peekNext {α : Type} {f : Char → α} {c : Char} (h : s.At before (c :: rest))
    (hc : c.toNat < 128) (hf : Bytewise f) :
    f s.peekNext = f (rest.headD (Char.ofUInt8 0)) := by
  have hnext : s.byte? (s.current + 1) = (encoded rest)[0]? := by
    rw [h.byte?, encoded_cons, utf8EncodeChar_ascii hc]
    rfl
  unfold Scanner.peekNext
  rw [hnext]
  cases rest with
  | nil => rfl
  | cons d ds =>
    obtain ⟨b, bs, hbs⟩ := List.exists_cons_of_ne_nil (String.utf8EncodeChar_ne_nil (c := d))
    rw [encoded_cons, hbs]
    exact hf.byte (hbs ▸ List.mem_cons_self : b ∈ String.utf8EncodeChar d)

theorem moved_eq_passed {c : Char} (hc : c.toNat < 128) (hline : c ≠ '\n') :
    { s with current := s.current + 1 } = s.passed [c] := by
  have hsize : String.utf8Len [c] = 1 := by
    rw [← length_encoded, encoded_cons, utf8EncodeChar_ascii hc]
    rfl
  have hnewlines : newlines [c] = 0 :=
    List.count_eq_zero.2 fun h ↦ hline (List.mem_singleton.1 h).symm
  unfold passed
  rw [hsize, hnewlines]
  rfl

theorem At.accept (c : Char) (h : s.At before rest) (hc : c.toNat < 128) (hline : c ≠ '\n') :
    s.accept c = if rest.head? = some c then (true, s.passed [c]) else (false, s) := by
  have hpeek : s.peek = c ↔ rest.headD (Char.ofUInt8 0) = c := by
    simpa using Bool.eq_iff_iff.1 (h.peek (bytewise_eq hc))
  unfold Scanner.accept
  simp only [h.lt_size, hpeek, moved_eq_passed hc hline]
  cases rest <;> simp

/-- The loop over bytes is the longest row of characters that satisfy the condition. -/
theorem passWhile_bytes (p : Char → Bool) (bs : List UInt8) (s : Scanner)
    (hleft : s.source.toByteArray.data.toList.drop s.current = bs) :
    s.passWhile p = { s with
      current := s.current + (bs.takeWhile fun b ↦ p (Char.ofUInt8 b)).length
      line := s.line +
        (bs.takeWhile fun b ↦ p (Char.ofUInt8 b)).countP fun b ↦ Char.ofUInt8 b == '\n' } := by
  have hsize : s.size = s.source.toByteArray.data.toList.length := rfl
  induction bs generalizing s with
  | nil =>
    unfold passWhile
    rw [if_neg]
    · rfl
    · rintro ⟨hlt, -⟩
      have hle := List.drop_eq_nil_iff.1 hleft
      omega
  | cons b bs ih =>
    have hlt : s.current < s.size := by
      rw [hsize]
      exact Nat.lt_of_not_le fun hle ↦ by rw [List.drop_eq_nil_of_le hle] at hleft; cases hleft
    have hbyte : s.byte? s.current = some b := by
      unfold Scanner.byte?
      rw [← Array.getElem?_toList, ← List.head?_drop, hleft]
      rfl
    have hpeek : s.peek = Char.ofUInt8 b := by
      unfold Scanner.peek
      rw [hbyte]
      rfl
    unfold passWhile
    rw [hpeek, List.takeWhile_cons]
    cases hp : p (Char.ofUInt8 b) with
    | false =>
      rw [if_neg (by simp)]
      rfl
    | true =>
      rw [if_pos ⟨hlt, rfl⟩, ih]
      · simp only [if_true, List.length_cons, List.countP_cons, beq_iff_eq]
        congr 1
        · omega
        · split <;> omega
      · rw [← List.drop_drop, hleft]
        rfl
      · exact hsize

theorem At.passWhile {p : Char → Bool} (h : s.At before rest) (hp : Bytewise p) :
    s.passWhile p = s.passed (rest.takeWhile p) := by
  have hleft : s.source.toByteArray.data.toList.drop s.current = encoded rest := by
    rw [h.source, String.toByteArray_ofList, h.current]
    change (encoded (before ++ rest)).toByteArray.data.toList.drop _ = _
    rw [List.toList_data_toByteArray, encoded_append, ← length_encoded, List.drop_left]
  rw [passWhile_bytes p _ s hleft, hp.takeWhile, length_encoded, countP_encoded]
  rfl

/-! ### Scanning one piece -/

theorem bytewise_mark? : Bytewise mark? := ⟨none, fun c hc ↦ by
  unfold mark?
  split <;> first | rfl | exact absurd hc (by decide)⟩

theorem bytewise_extensible? : Bytewise extensible? := ⟨none, fun c hc ↦ by
  unfold extensible?
  split <;> first | rfl | exact absurd hc (by decide)⟩

theorem bytewise_isDigit : Bytewise isDigit := ⟨false, fun c hc ↦ by
  have hnine : ¬c ≤ '9' := fun h ↦ absurd (hc.trans h) (by decide)
  simp [isDigit, hnine]⟩

theorem bytewise_isWordStart : Bytewise isWordStart := ⟨false, fun c hc ↦ by
  have hz : ¬c ≤ 'z' := fun h ↦ absurd (hc.trans h) (by decide)
  have hZ : ¬c ≤ 'Z' := fun h ↦ absurd (hc.trans h) (by decide)
  have hscore : c ≠ '_' := by
    rintro rfl
    exact absurd hc (by decide)
  simp [isWordStart, hz, hZ, hscore]⟩

theorem bytewise_isWordPart : Bytewise isWordPart := by
  obtain ⟨v, hv⟩ := bytewise_isWordStart
  obtain ⟨w, hw⟩ := bytewise_isDigit
  exact ⟨v || w, fun c hc ↦ by unfold isWordPart; rw [hv c hc, hw c hc]⟩

theorem bytewise_isBlank : Bytewise isBlank := ⟨false, fun c hc ↦ by
  have hne : ∀ d : Char, d.toNat < 128 → c ≠ d := fun d hd h ↦ by
    subst h
    omega
  simp [isBlank, hne]⟩

theorem bytewise_ne {c : Char} (hc : c.toNat < 128) : Bytewise fun d ↦ d != c := by
  obtain ⟨v, hv⟩ := bytewise_eq hc
  exact ⟨!v, fun d hd ↦ congrArg Bool.not (hv d hd)⟩

theorem bytewise_notQuote : Bytewise notQuote := bytewise_ne (by decide)

theorem bytewise_notNewline : Bytewise notNewline := bytewise_ne (by decide)

theorem At.either {c : Char} (h : s.At before (c :: rest)) (kinds : Token.Kind × Token.Kind) :
    (s.passed [c]).either kinds =
      ((extended c kinds rest).content, s.passed (extended c kinds rest).lexeme) := by
  have haccept := (At.passed [c] h).accept '=' (by decide) (by decide)
  unfold Scanner.either extended
  rw [haccept]
  cases rest with
  | nil => rfl
  | cons d ds =>
    by_cases hd : d = '='
    · subst hd
      simp [passed_append]
    · simp [hd]

theorem At.slash (h : s.At before ('/' :: rest)) :
    (s.passed ['/']).slash = ((Scan.slash rest).content, s.passed (Scan.slash rest).lexeme) := by
  have haccept := (At.passed ['/'] h).accept '/' (by decide) (by decide)
  unfold Scanner.slash Scan.slash
  rw [haccept]
  cases rest with
  | nil => rfl
  | cons d ds =>
    by_cases hd : d = '/'
    · subst hd
      have hpass := (At.passed ['/', '/'] h).passWhile bytewise_notNewline
      simp [passed_append, hpass]
    · simp [hd]

theorem At.advance {c : Char} (h : s.At before (c :: rest)) (hc : c.toNat < 128)
    (hline : c ≠ '\n') : s.advance = some (c, s.passed [c]) := by
  have hbyte : s.byte? s.current = some (UInt8.ofNat c.toNat) := by
    refine (h.byte? 0).trans ?_
    rw [encoded_cons, utf8EncodeChar_ascii hc]
    rfl
  unfold Scanner.advance
  rw [hbyte, Option.map_some, ofUInt8_ascii hc, moved_eq_passed hc hline]

/-- The lexeme that a scanner has passed since it was at its start. -/
theorem At.lexeme (cs : List Char) (h : s.At before (cs ++ rest)) (hstart : s.start = s.current) :
    Scanner.slice? s.source s.start (s.passed cs).current = some (String.ofList cs) := by
  refine slice?_middle before cs rest (h.source.trans (by rw [List.append_assoc]))
    (hstart.trans h.current) ?_
  change s.current + _ = _
  rw [h.current]

theorem At.string (h : s.At before ('"' :: rest)) (hstart : s.start = s.current) :
    (s.passed ['"']).string =
      some ((Scan.string rest).content, s.passed (Scan.string rest).lexeme) := by
  have hwhole := List.takeWhile_append_dropWhile (p := notQuote) (l := rest)
  have hpass := (At.passed ['"'] h).passWhile bytewise_notQuote
  have hat : (s.passed ('"' :: rest.takeWhile notQuote)).At
      (before ++ '"' :: rest.takeWhile notQuote) (rest.dropWhile notQuote) :=
    At.passed _ (by rw [List.cons_append, hwhole]; exact h)
  unfold Scanner.string Scan.string
  dsimp only
  rw [hpass, passed_cons]
  cases hrest : rest.dropWhile notQuote with
  | nil =>
    rw [hrest] at hat hwhole
    rw [if_neg fun hlt ↦ hat.lt_size.1 hlt rfl]
    rw [List.append_nil] at hwhole
    rw [hwhole]
  | cons c cs =>
    have hquote : c = '"' := by
      have hhead := List.head?_dropWhile_not notQuote rest
      rw [hrest] at hhead
      simpa [notQuote] using hhead
    subst hquote
    rw [hrest] at hat hwhole
    have hcontents : Scanner.slice? s.source (s.start + 1)
        ((s.passed ('"' :: rest.takeWhile notQuote ++ ['"'])).current - 1) =
          some (String.ofList (rest.takeWhile notQuote)) := by
      refine slice?_middle (before ++ ['"']) (rest.takeWhile notQuote) ('"' :: cs) ?_ ?_ ?_
      · rw [h.source, List.append_assoc, List.append_assoc, hwhole]
        rfl
      · rw [hstart, h.current, String.utf8Len_append]
        rfl
      · change s.current + _ - 1 = _
        rw [h.current]
        simp only [String.utf8Len_append, String.utf8Len_cons, String.utf8Len_nil]
        change _ + (_ + 1 + (0 + 1)) - 1 = _ + (0 + 1) + _
        omega
    rw [if_pos (hat.lt_size.2 (by simp)), hat.advance (by decide) (by decide), passed_append]
    change (Scanner.slice? s.source (s.start + 1) _).bind _ = _
    rw [hcontents]
    rfl

theorem At.word {c : Char} (h : s.At before (c :: rest)) (hstart : s.start = s.current) :
    (s.passed [c]).word =
      some ((Scan.word c rest).content, s.passed (Scan.word c rest).lexeme) := by
  have hwhole := List.takeWhile_append_dropWhile (p := isWordPart) (l := rest)
  have hpass := (At.passed [c] h).passWhile bytewise_isWordPart
  have hlexeme := At.lexeme (c :: rest.takeWhile isWordPart)
    (by rw [List.cons_append, hwhole]; exact h) hstart
  unfold Scanner.word Scan.word
  dsimp only
  rw [hpass, passed_cons]
  change (Scanner.slice? s.source s.start _).bind _ = _
  rw [hlexeme]
  rfl

theorem At.unexpected {c : Char} (h : s.At before (c :: rest)) (hstart : s.start = s.current)
    {s₁ : Scanner} (hs₁ : s₁ = { s with current := s.current + 1 }) (hline : c ≠ '\n') :
    s₁.unexpected = some (.error (.unexpectedCharacter c), s.passed [c]) := by
  have hleft : Scanner.slice? s.source s.start s.size = some (String.ofList (c :: rest)) := by
    refine slice?_middle before (c :: rest) [] ?_ (hstart.trans h.current) ?_
    · rw [List.append_nil, h.source]
    · rw [h.size, h.current]
  have hnewlines : newlines [c] = 0 :=
    List.count_eq_zero.2 fun hc ↦ hline (List.mem_singleton.1 hc).symm
  subst hs₁
  unfold Scanner.unexpected
  change (Scanner.slice? s.source s.start s.size).bind _ = _
  rw [hleft, Option.bind_some, String.toList_ofList]
  change some (_, ({ s with current := s.start + c.utf8Size } : Scanner)) = _
  unfold Scanner.passed
  rw [hstart, hnewlines, String.utf8Len_cons, String.utf8Len_nil, Nat.zero_add]
  rfl

theorem decimal_whole {digits : List Char} (h : ∀ c ∈ digits, isDigit c) :
    decimal digits = Number.ofDigits (wholeNumber digits) 0 := by
  unfold decimal
  rw [List.filter_eq_self.2 h, List.dropWhile_eq_nil_iff.2 h]
  rfl

theorem decimal_point {digits places : List Char} (h : ∀ c ∈ digits, isDigit c)
    (h' : ∀ c ∈ places, isDigit c) :
    decimal (digits ++ '.' :: places) =
      Number.ofDigits (wholeNumber (digits ++ places)) places.length := by
  have hpoint : isDigit '.' = false := by decide
  unfold decimal
  rw [List.filter_append, List.filter_cons_of_neg (by simp [hpoint]), List.filter_eq_self.2 h,
    List.filter_eq_self.2 h', List.dropWhile_append_of_pos h,
    List.dropWhile_cons_of_neg (by simp [hpoint])]
  rfl

theorem mem_digits {c : Char} (hc : isDigit c) (cs : List Char) :
    ∀ d ∈ c :: cs.takeWhile isDigit, isDigit d := by
  intro d hd
  rcases List.mem_cons.1 hd with rfl | hd
  · exact hc
  · exact List.mem_takeWhile_imp hd

/-- A point that a digit follows shows in the next two bytes. -/
theorem At.peek_point (h : s.At before rest) :
    (s.peek = '.' ∧ isDigit s.peekNext) ↔ ∃ c cs, rest = '.' :: c :: cs ∧ isDigit c := by
  have hpeek : s.peek = '.' ↔ rest.headD (Char.ofUInt8 0) = '.' := by
    simpa using Bool.eq_iff_iff.1 (h.peek (bytewise_eq (by decide : '.'.toNat < 128)))
  rw [hpeek]
  constructor
  · rintro ⟨hhead, hdigit⟩
    cases rest with
    | nil => exact absurd hhead (by decide)
    | cons d ds =>
      change d = '.' at hhead
      subst hhead
      rw [h.peekNext (by decide) bytewise_isDigit] at hdigit
      cases ds with
      | nil => exact absurd hdigit (by decide)
      | cons c cs => exact ⟨c, cs, rfl, hdigit⟩
  · rintro ⟨c, cs, rfl, hdigit⟩
    exact ⟨rfl, by rw [h.peekNext (by decide) bytewise_isDigit]; exact hdigit⟩

/-- A number that goes up to `cs`, as the scanner reads it. -/
theorem At.numeral {cs : List Char} {value : Number} (h : s.At before (cs ++ rest))
    (hstart : s.start = s.current) (hvalue : decimal cs = value) :
    ((Scanner.slice? s.source s.start (s.passed cs).current).bind fun lexeme ↦
      some (Content.token (.number (decimal lexeme.toList)), s.passed cs)) =
        some (.token (.number value), s.passed cs) := by
  rw [h.lexeme cs hstart, Option.bind_some, String.toList_ofList, hvalue]

theorem At.number {c : Char} (h : s.At before (c :: rest)) (hc : isDigit c)
    (hstart : s.start = s.current) :
    (s.passed [c]).number =
      some ((Scan.number c rest).content, s.passed (Scan.number c rest).lexeme) := by
  have hwhole := List.takeWhile_append_dropWhile (p := isDigit) (l := rest)
  have hpass := (At.passed [c] h).passWhile bytewise_isDigit
  have hsplit : s.At before (c :: rest.takeWhile isDigit ++ rest.dropWhile isDigit) := by
    rw [List.cons_append, hwhole]
    exact h
  have hat := At.passed _ hsplit
  unfold Scanner.number
  dsimp only
  rw [hpass, passed_cons]
  by_cases hpoint : ∃ d ds, rest.dropWhile isDigit = '.' :: d :: ds ∧ isDigit d
  · rw [if_pos (hat.peek_point.2 hpoint)]
    obtain ⟨d, ds, hrest, hd⟩ := hpoint
    rw [hrest] at hat hsplit
    rw [moved_eq_passed (by decide : '.'.toNat < 128) (by decide),
      (At.passed ['.'] hat).passWhile bytewise_isDigit, passed_append, passed_append,
      List.takeWhile_cons_of_pos hd]
    have hlexeme : s.At before ((c :: rest.takeWhile isDigit ++ '.' :: d :: ds.takeWhile isDigit) ++
        ds.dropWhile isDigit) := by
      simpa using hsplit
    refine (hlexeme.numeral hstart
      (decimal_point (mem_digits hc rest) (mem_digits hd ds))).trans ?_
    unfold Scan.number
    simp [hrest, hd]
  · rw [if_neg fun hpeek ↦ hpoint (hat.peek_point.1 hpeek)]
    refine (hsplit.numeral hstart (decimal_whole (mem_digits hc rest))).trans ?_
    unfold Scan.number
    dsimp only
    split
    next d ds hrest =>
      rw [if_neg fun hd ↦ hpoint ⟨d, ds, hrest, hd⟩]
    next => rfl

/-- An ASCII character other than a newline. -/
def Short (c : Char) : Prop := c.toNat < 128 ∧ c ≠ '\n'

theorem short_of_mark? {c : Char} {kind : Token.Kind} (h : mark? c = some kind) : Short c := by
  unfold mark? at h
  split at h <;> first | exact ⟨by decide, by decide⟩ | cases h

theorem short_of_extensible? {c : Char} {kinds : Token.Kind × Token.Kind}
    (h : extensible? c = some kinds) : Short c := by
  unfold extensible? at h
  split at h <;> first | exact ⟨by decide, by decide⟩ | cases h

theorem short_of_isBlank {c : Char} (h : isBlank c) (hline : c ≠ '\n') : Short c := by
  unfold isBlank at h
  simp only [Bool.or_eq_true, beq_iff_eq] at h
  rcases h with ((rfl | rfl) | rfl) | rfl <;> exact ⟨by decide, hline⟩

theorem short_of_isDigit {c : Char} (h : isDigit c) : Short c := by
  simp only [isDigit, Bool.and_eq_true, decide_eq_true_eq] at h
  have hle : c.toNat ≤ 57 := h.2
  refine ⟨by omega, ?_⟩
  rintro rfl
  exact absurd h.1 (by decide)

theorem short_of_isWordStart {c : Char} (h : isWordStart c) : Short c := by
  simp only [isWordStart, Bool.or_eq_true, Bool.and_eq_true, decide_eq_true_eq, beq_iff_eq] at h
  rcases h with (⟨hlow, hhigh⟩ | ⟨hlow, hhigh⟩) | rfl
  · have hle : c.toNat ≤ 122 := hhigh
    refine ⟨by omega, ?_⟩
    rintro rfl
    exact absurd hlow (by decide)
  · have hle : c.toNat ≤ 90 := hhigh
    refine ⟨by omega, ?_⟩
    rintro rfl
    exact absurd hlow (by decide)
  · exact ⟨by decide, by decide⟩

/-- The scanner finds the piece that the text begins with, and passes it. -/
theorem At.scan {c : Char} (h : s.At before (c :: rest)) (hstart : s.start = s.current) :
    s.scan = some ((piece c rest).content, s.passed (piece c rest).lexeme) := by
  obtain ⟨b, hb, hbyte⟩ := h.byte_head
  have hsame : ∀ d : Char, d.toNat < 128 → (Char.ofUInt8 b = d ↔ c = d) := fun d hd ↦ by
    simpa using Bool.eq_iff_iff.1 ((bytewise_eq hd).byte hb)
  have hmoved : ∀ {d : Char}, Short d → { s with current := s.current + 1 } = s.passed [d] :=
    fun hd ↦ moved_eq_passed hd.1 hd.2
  unfold Scanner.scan Scanner.advance
  rw [hbyte, Option.map_some]
  simp only [Option.bind_eq_bind, Option.bind_some, bytewise_mark?.byte hb,
    bytewise_extensible?.byte hb, bytewise_isBlank.byte hb, bytewise_isDigit.byte hb,
    bytewise_isWordStart.byte hb, hsame '\n' (by decide), hsame '/' (by decide),
    hsame '"' (by decide)]
  unfold piece
  cases hmark : mark? c with
  | some kind => exact congrArg (fun s' ↦ some (_, s')) (hmoved (short_of_mark? hmark))
  | none =>
    cases hextensible : extensible? c with
    | some kinds =>
      dsimp only
      rw [hmoved (short_of_extensible? hextensible), h.either]
    | none =>
      dsimp only
      by_cases hline : c = '\n'
      · subst hline
        rfl
      rw [if_neg hline]
      by_cases hblank : isBlank c
      · rw [if_pos hblank, if_pos hblank, hmoved (short_of_isBlank hblank hline)]
      rw [if_neg hblank, if_neg hblank]
      by_cases hslash : c = '/'
      · subst hslash
        rw [if_pos rfl, if_pos rfl, hmoved ⟨by decide, hline⟩, h.slash]
      rw [if_neg hslash, if_neg hslash]
      by_cases hquote : c = '"'
      · subst hquote
        rw [if_pos rfl, if_pos rfl, hmoved ⟨by decide, hline⟩, h.string hstart]
      rw [if_neg hquote, if_neg hquote]
      by_cases hdigit : isDigit c
      · rw [if_pos hdigit, if_pos hdigit, hmoved (short_of_isDigit hdigit), h.number hdigit hstart]
      rw [if_neg hdigit, if_neg hdigit]
      by_cases hword : isWordStart c
      · rw [if_pos hword, if_pos hword, hmoved (short_of_isWordStart hword), h.word hstart]
      rw [if_neg hword, if_neg hword, h.unexpected hstart rfl hline]

/-! ### Items in order -/

/-- The scanner as it begins a lexeme. -/
def begun (s : Scanner) : Scanner := { s with start := s.current }

theorem At.begun (h : s.At before rest) : s.begun.At before rest := ⟨h.source, h.current⟩

theorem At.next_nil (h : s.At before []) :
    s.next =
      some (some (.token ⟨.endOfInput, "", s.line⟩), { s with current := s.current + 1 }) := by
  unfold Scanner.next
  have hsize : s.current = s.size := h.size.symm
  rw [if_neg fun hlt ↦ h.lt_size.1 hlt rfl, if_pos hsize]

/-- The scanner yields what its first piece amounts to, or goes on after it. -/
theorem At.next_cons {c : Char} (h : s.At before (c :: rest)) :
    let p := piece c rest
    let s' := s.begun.passed p.lexeme
    s.next = match p.item? s'.line with
      | some item => some (some item, s')
      | none => s'.next := by
  have hscan := h.begun.scan rfl
  have hsplit : s.begun.At before ((piece c rest).lexeme ++ (piece c rest).rest) := by
    rw [(piece_splits c rest).2]
    exact h.begun
  have hlexeme := hsplit.lexeme _ rfl
  intro p s'
  conv_lhs => unfold Scanner.next
  rw [if_pos (h.lt_size.2 (by simp))]
  unfold Piece.item?
  split
  next hnone => exact absurd (hscan.symm.trans hnone) (by simp)
  next s₁ hblank =>
    obtain ⟨hcontent, rfl⟩ := Prod.mk.inj (Option.some.inj (hscan.symm.trans hblank))
    rw [hcontent]
  next cause s₁ herror =>
    obtain ⟨hcontent, rfl⟩ := Prod.mk.inj (Option.some.inj (hscan.symm.trans herror))
    rw [hcontent]
  next kind s₁ htoken =>
    obtain ⟨hcontent, rfl⟩ := Prod.mk.inj (Option.some.inj (hscan.symm.trans htoken))
    rw [hcontent]
    exact congrArg (Option.bind · _) hlexeme

end Scanner

end Lox
