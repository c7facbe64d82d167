import Lox.Token.Scan

/-!
A scanner as it goes over the bytes of a text. It keeps the first byte of the lexeme at hand and
the byte after the last one that it has looked at, and knows nothing of characters but what the
bytes tell. So whatever it takes of the text it asks for: there is nothing to be had beyond the
end, nor between two places that are out of order or within a character.
-/

set_option autoImplicit false

namespace Lox

structure Scanner where
  source : String
  start : Nat
  current : Nat
  line : Nat

namespace Scanner

open Scan

def ofSource (source : String) : Scanner := ⟨source, 0, 0, 1⟩

def size (s : Scanner) : Nat := s.source.utf8ByteSize

def byte? (s : Scanner) (i : Nat) : Option UInt8 := s.source.toByteArray.data[i]?

/-- Text from the byte `first` up to the byte `last`, if they bound one. -/
def slice? (source : String) (first last : Nat) : Option String :=
  if first ≤ last ∧ String.Pos.Raw.IsValid source ⟨first⟩ ∧
      String.Pos.Raw.IsValid source ⟨last⟩ then
    some (String.Pos.Raw.extract source ⟨first⟩ ⟨last⟩)
  else none

/-- The character whose code is the next byte; beyond the end, zero. -/
def peek (s : Scanner) : Char := Char.ofUInt8 ((s.byte? s.current).getD 0)

def peekNext (s : Scanner) : Char := Char.ofUInt8 ((s.byte? (s.current + 1)).getD 0)

def advance (s : Scanner) : Option (Char × Scanner) :=
  (s.byte? s.current).map fun b ↦ (Char.ofUInt8 b, { s with current := s.current + 1 })

/-- Whether the next byte is the one expected, which is then passed. -/
def accept (expected : Char) (s : Scanner) : Bool × Scanner :=
  if s.current < s.size ∧ s.peek = expected then (true, { s with current := s.current + 1 })
  else (false, s)

/-- Passes bytes as long as they satisfy the condition, and counts the lines that end on the
way. -/
def passWhile (p : Char → Bool) (s : Scanner) : Scanner :=
  if s.current < s.size ∧ p s.peek then
    passWhile p { s with
      current := s.current + 1
      line := if s.peek = '\n' then s.line + 1 else s.line }
  else s
termination_by s.size - s.current
decreasing_by
  change s.size - (s.current + 1) < s.size - s.current
  omega

def either (kinds : Token.Kind × Token.Kind) (s : Scanner) : Content × Scanner :=
  match s.accept '=' with
  | (true, s) => (.token kinds.2, s)
  | (false, s) => (.token kinds.1, s)

def slash (s : Scanner) : Content × Scanner :=
  match s.accept '/' with
  | (true, s) => (.blank, s.passWhile notNewline)
  | (false, s) => (.token .slash, s)

/-- After an opening quote. -/
def string (s : Scanner) : Option (Content × Scanner) :=
  let s := s.passWhile notQuote
  if s.current < s.size then do
    let (_, s) ← s.advance
    let contents ← slice? s.source (s.start + 1) (s.current - 1)
    some (.token (.string contents), s)
  else some (.error .unterminatedString, s)

/-- Number that a row of digits writes, with or without a point in it. -/
def decimal (text : List Char) : Number :=
  Number.ofDigits (wholeNumber (text.filter isDigit)) (text.dropWhile isDigit).tail.length

/-- After a first digit. -/
def number (s : Scanner) : Option (Content × Scanner) := do
  let s := s.passWhile isDigit
  let s :=
    if s.peek = '.' ∧ isDigit s.peekNext then
      passWhile isDigit { s with current := s.current + 1 }
    else s
  let lexeme ← slice? s.source s.start s.current
  some (.token (.number (decimal lexeme.toList)), s)

/-- After a first letter. -/
def word (s : Scanner) : Option (Content × Scanner) := do
  let s := s.passWhile isWordPart
  let lexeme ← slice? s.source s.start s.current
  some (.token (Token.Kind.ofWord lexeme), s)

/-- Passes the whole of a character that begins nothing. -/
def unexpected (s : Scanner) : Option (Content × Scanner) := do
  let left ← slice? s.source s.start s.size
  let c := left.toList.head?.getD '\uFFFD'
  some (.error (.unexpectedCharacter c), { s with current := s.start + c.utf8Size })

/-- What the text goes on with, which is passed. -/
def scan (s : Scanner) : Option (Content × Scanner) := do
  let (c, s) ← s.advance
  match mark? c, extensible? c with
  | some kind, _ => some (.token kind, s)
  | none, some kinds => some (s.either kinds)
  | none, none =>
    if c = '\n' then some (.blank, { s with line := s.line + 1 })
    else if isBlank c then some (.blank, s)
    else if c = '/' then some s.slash
    else if c = '"' then s.string
    else if isDigit c then s.number
    else if isWordStart c then s.word
    else s.unexpected

/-- The scanner goes over the same text, and has not gone back. -/
structure Later (s s' : Scanner) : Prop where
  source : s'.source = s.source
  current : s.current ≤ s'.current

theorem later_refl (s : Scanner) : s.Later s := ⟨rfl, Nat.le_refl _⟩

theorem later_move (s : Scanner) (k line : Nat) :
    s.Later { s with current := s.current + k, line := line } := ⟨rfl, Nat.le_add_right _ _⟩

theorem Later.trans {s s₁ s₂ : Scanner} (h : s.Later s₁) (h' : s₁.Later s₂) : s.Later s₂ :=
  ⟨h'.source.trans h.source, Nat.le_trans h.current h'.current⟩

theorem later_accept (s : Scanner) (expected : Char) : s.Later (s.accept expected).2 := by
  unfold accept
  split
  · exact s.later_move 1 s.line
  · exact s.later_refl

theorem later_passWhile (p : Char → Bool) (s : Scanner) : s.Later (s.passWhile p) := by
  fun_induction passWhile p s with
  | case1 s h ih => exact (s.later_move 1 _).trans ih
  | case2 s h => exact s.later_refl

theorem later_advance {s s' : Scanner} {c : Char} (h : s.advance = some (c, s')) :
    s' = { s with current := s.current + 1 } := by
  unfold advance at h
  obtain ⟨b, -, hb⟩ := Option.map_eq_some_iff.1 h
  exact (Prod.mk.inj hb).2.symm

theorem later_either (kinds : Token.Kind × Token.Kind) (s : Scanner) :
    s.Later (s.either kinds).2 := by
  have haccept := s.later_accept '='
  unfold either
  split <;> simp_all

theorem later_slash (s : Scanner) : s.Later s.slash.2 := by
  have haccept := s.later_accept '/'
  unfold slash
  split
  next s' h =>
    rw [h] at haccept
    exact haccept.trans (later_passWhile _ _)
  next s' h =>
    rw [h] at haccept
    exact haccept

theorem later_string {s s' : Scanner} {found : Content} (h : s.string = some (found, s')) :
    s.Later s' := by
  have hpass := s.later_passWhile notQuote
  unfold string at h
  dsimp only at h
  split at h
  · obtain ⟨⟨c, s₁⟩, h₁, h⟩ := Option.bind_eq_some_iff.1 h
    obtain ⟨contents, -, h⟩ := Option.bind_eq_some_iff.1 h
    cases h
    exact later_advance h₁ ▸ hpass.trans (later_move _ 1 _)
  · cases h
    exact hpass

theorem later_number {s s' : Scanner} {found : Content} (h : s.number = some (found, s')) :
    s.Later s' := by
  have hpass := s.later_passWhile isDigit
  unfold number at h
  obtain ⟨lexeme, -, h⟩ := Option.bind_eq_some_iff.1 h
  cases h
  split
  · exact hpass.trans ((later_move _ 1 _).trans (later_passWhile _ _))
  · exact hpass

theorem later_word {s s' : Scanner} {found : Content} (h : s.word = some (found, s')) :
    s.Later s' := by
  unfold word at h
  obtain ⟨lexeme, -, h⟩ := Option.bind_eq_some_iff.1 h
  cases h
  exact later_passWhile _ _

/-- A scanner at the beginning of a lexeme gets beyond its first byte. -/
theorem later_scan {s s' : Scanner} {found : Content} (hstart : s.start = s.current)
    (h : s.scan = some (found, s')) : s'.source = s.source ∧ s.current < s'.current := by
  unfold scan at h
  obtain ⟨⟨c, s₁⟩, h₁, h⟩ := Option.bind_eq_some_iff.1 h
  have hs₁ := later_advance h₁
  have hlater : s₁.Later s' → s'.source = s.source ∧ s.current < s'.current := by
    rw [hs₁]
    exact fun hlater ↦ ⟨hlater.source, hlater.current⟩
  dsimp only at h
  split at h
  · cases h
    exact hlater (later_refl _)
  next kinds _ _ =>
    have heither := later_either kinds s₁
    rw [Option.some.inj h] at heither
    exact hlater heither
  · split at h
    · cases h
      exact hlater (s₁.later_move 0 _)
    split at h
    · cases h
      exact hlater (later_refl _)
    split at h
    · have hslash := s₁.later_slash
      rw [Option.some.inj h] at hslash
      exact hlater hslash
    split at h
    · exact hlater (later_string h)
    split at h
    · exact hlater (later_number h)
    split at h
    · exact hlater (later_word h)
    · obtain ⟨left, -, h⟩ := Option.bind_eq_some_iff.1 h
      cases h
      rw [hs₁]
      refine ⟨rfl, ?_⟩
      change s.current < s.start + _
      rw [hstart]
      exact Nat.lt_add_of_pos_right (Char.utf8Size_pos _)

/-- The next item, and the scanner after it. At the end of the text there is the end of input,
beyond it nothing any more. -/
def next (s : Scanner) : Option (Option Item × Scanner) :=
  if s.current < s.size then
    match _ : ({ s with start := s.current } : Scanner).scan with
    | none => none
    | some (.blank, s') => next s'
    | some (.error cause, s') => some (some (.error s'.line cause), s')
    | some (.token kind, s') => do
      let lexeme ← slice? s'.source s'.start s'.current
      some (some (.token ⟨kind, lexeme, s'.line⟩), s')
  else if s.current = s.size then
    some (some (.token ⟨.endOfInput, "", s.line⟩), { s with current := s.current + 1 })
  else some (none, s)
termination_by s.size - s.current
decreasing_by
  rename_i hscan
  obtain ⟨hsource, hbeyond⟩ := later_scan (s := { s with start := s.current }) rfl hscan
  rw [size, hsource]
  change s.size - _ < s.size - _
  change s.current < s'.current at hbeyond
  omega

end Scanner

end Lox
