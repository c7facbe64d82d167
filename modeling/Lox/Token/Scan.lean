import Lox.Diagnostic
import Lox.Number.Rounding

/-!
Reading a text into tokens. A text falls into pieces, one after the other: a blank or a
comment, a token, or a lexical error. A piece is never empty, and together the pieces are
the text. An item belongs to the line on which its piece ends.
-/

set_option autoImplicit false

namespace Lox

namespace Scan

inductive Content
  | blank
  | token (kind : Token.Kind)
  | error (cause : LexicalError)
deriving DecidableEq

/-- A piece at the start of a text: what it is, its characters, and the text after it. -/
structure Piece where
  content : Content
  lexeme : List Char
  rest : List Char
deriving DecidableEq

def isDigit (c : Char) : Bool := decide ('0' ≤ c) && decide (c ≤ '9')

def isWordStart (c : Char) : Bool :=
  (decide ('a' ≤ c) && decide (c ≤ 'z')) || (decide ('A' ≤ c) && decide (c ≤ 'Z')) || c == '_'

def isWordPart (c : Char) : Bool := isWordStart c || isDigit c

def isBlank (c : Char) : Bool := c == ' ' || c == '\r' || c == '\t' || c == '\n'

def notQuote (c : Char) : Bool := c != '"'

def notNewline (c : Char) : Bool := c != '\n'

/-- Kinds of the marks that are one character long whatever follows. -/
def mark? (c : Char) : Option Token.Kind :=
  match c with
  | '(' => some .leftParen
  | ')' => some .rightParen
  | '\x7b' => some .leftBrace
  | '\x7d' => some .rightBrace
  | ',' => some .comma
  | '.' => some .dot
  | '-' => some .minus
  | '+' => some .plus
  | ';' => some .semicolon
  | '*' => some .star
  | _ => none

/-- Kinds of the marks that an equals sign extends: alone, and extended. -/
def extensible? (c : Char) : Option (Token.Kind × Token.Kind) :=
  match c with
  | '!' => some (.bang, .bangEqual)
  | '=' => some (.equal, .equalEqual)
  | '<' => some (.less, .lessEqual)
  | '>' => some (.greater, .greaterEqual)
  | _ => none

def extended (c : Char) (kinds : Token.Kind × Token.Kind) (cs : List Char) : Piece :=
  match cs with
  | '=' :: rest => ⟨.token kinds.2, [c, '='], rest⟩
  | _ => ⟨.token kinds.1, [c], cs⟩

/-- After a slash: a comment runs up to the end of its line. -/
def slash (cs : List Char) : Piece :=
  match cs with
  | '/' :: rest => ⟨.blank, '/' :: '/' :: rest.takeWhile notNewline, rest.dropWhile notNewline⟩
  | _ => ⟨.token .slash, ['/'], cs⟩

/-- After an opening quote. -/
def string (cs : List Char) : Piece :=
  let contents := cs.takeWhile notQuote
  match cs.dropWhile notQuote with
  | quote :: rest =>
    ⟨.token (.string (String.ofList contents)), '"' :: contents ++ [quote], rest⟩
  | [] => ⟨.error .unterminatedString, '"' :: cs, []⟩

def digitValue (c : Char) : Nat := c.toNat - '0'.toNat

/-- Whole number that a row of digits writes. -/
def wholeNumber (digits : List Char) : Nat :=
  digits.foldl (fun value c ↦ value * 10 + digitValue c) 0

/-- A number, from its first digit on. A point counts only before another digit. -/
def number (first : Char) (cs : List Char) : Piece :=
  let whole := first :: cs.takeWhile isDigit
  let rest := cs.dropWhile isDigit
  let plain : Piece := ⟨.token (.number (Number.ofDigits (wholeNumber whole) 0)), whole, rest⟩
  match rest with
  | '.' :: next :: more =>
    if isDigit next then
      let places := next :: more.takeWhile isDigit
      let value := Number.ofDigits (wholeNumber (whole ++ places)) places.length
      ⟨.token (.number value), whole ++ '.' :: places, more.dropWhile isDigit⟩
    else plain
  | _ => plain

def word (first : Char) (cs : List Char) : Piece :=
  let letters := first :: cs.takeWhile isWordPart
  ⟨.token (Token.Kind.ofWord (String.ofList letters)), letters, cs.dropWhile isWordPart⟩

/-- First piece of the text that begins with `c`. -/
def piece (c : Char) (cs : List Char) : Piece :=
  match mark? c, extensible? c with
  | some kind, _ => ⟨.token kind, [c], cs⟩
  | none, some kinds => extended c kinds cs
  | none, none =>
    if isBlank c then ⟨.blank, [c], cs⟩
    else if c = '/' then slash cs
    else if c = '"' then string cs
    else if isDigit c then number c cs
    else if isWordStart c then word c cs
    else ⟨.error (.unexpectedCharacter c), [c], cs⟩

/-- The piece takes its characters off the front of the text, at least one. -/
def Piece.Splits (p : Piece) (text : List Char) : Prop :=
  p.lexeme ≠ [] ∧ p.lexeme ++ p.rest = text

theorem extended_splits (c : Char) (kinds : Token.Kind × Token.Kind) (cs : List Char) :
    (extended c kinds cs).Splits (c :: cs) := by
  unfold extended
  split <;> simp [Piece.Splits]

theorem slash_splits (cs : List Char) : (slash cs).Splits ('/' :: cs) := by
  unfold slash
  split <;> simp [Piece.Splits]

theorem string_splits (cs : List Char) : (string cs).Splits ('"' :: cs) := by
  have whole := List.takeWhile_append_dropWhile (p := notQuote) (l := cs)
  unfold string
  dsimp only
  split
  next quote rest h =>
    rw [h] at whole
    simp [Piece.Splits, whole]
  next => simp [Piece.Splits]

theorem number_splits (c : Char) (cs : List Char) : (number c cs).Splits (c :: cs) := by
  have whole := List.takeWhile_append_dropWhile (p := isDigit) (l := cs)
  unfold number
  dsimp only
  split
  next next more h =>
    split
    · rw [h] at whole
      simp [Piece.Splits, whole]
    · simp [Piece.Splits]
  next => simp [Piece.Splits]

theorem word_splits (c : Char) (cs : List Char) : (word c cs).Splits (c :: cs) := by
  simp [word, Piece.Splits]

theorem piece_splits (c : Char) (cs : List Char) : (piece c cs).Splits (c :: cs) := by
  unfold piece
  split
  · simp [Piece.Splits]
  · exact extended_splits _ _ _
  · split
    · simp [Piece.Splits]
    · split
      next h => exact h ▸ slash_splits cs
      next =>
        split
        next h => exact h ▸ string_splits cs
        next =>
          split
          · exact number_splits c cs
          · split
            · exact word_splits c cs
            · simp [Piece.Splits]

theorem piece_rest_length (c : Char) (cs : List Char) :
    (piece c cs).rest.length ≤ cs.length := by
  have whole := congrArg List.length (piece_splits c cs).2
  have nonempty := List.length_pos_iff.2 (piece_splits c cs).1
  simp only [List.length_append, List.length_cons] at whole
  omega

def newlines (cs : List Char) : Nat := cs.count '\n'

inductive Item
  | token (t : Token)
  | error (line : Nat) (cause : LexicalError)
deriving DecidableEq

/-- The item that a piece amounts to when it ends on the given line. -/
def Piece.item? (p : Piece) (line : Nat) : Option Item :=
  match p.content with
  | .blank => none
  | .token kind => some (.token ⟨kind, String.ofList p.lexeme, line⟩)
  | .error cause => some (.error line cause)

/-- Items of a text that begins on the given line. The last is the end of input. -/
def itemsFrom (line : Nat) : List Char → List Item
  | [] => [.token ⟨.endOfInput, "", line⟩]
  | c :: cs =>
    let p := piece c cs
    let last := line + newlines p.lexeme
    let items := itemsFrom last p.rest
    match p.item? last with
    | some item => item :: items
    | none => items
termination_by text => text.length
decreasing_by
  have := piece_rest_length c cs
  simp only [List.length_cons]
  omega

def items (source : String) : List Item := itemsFrom 1 source.toList

def Item.token? : Item → Option Token
  | .token t => some t
  | .error _ _ => none

def Item.diagnostic? : Item → Option Diagnostic
  | .token _ => none
  | .error line cause => some (.lexical line cause)

/-- Tokens of a program, whatever errors lie between them. -/
def tokens (source : String) : List Token := (items source).filterMap Item.token?

def diagnostics (source : String) : List Diagnostic := (items source).filterMap Item.diagnostic?

end Scan

end Lox
