/-!
Reading UTF-8. Bytes are taken one at a time; a character that has begun says how many bytes
it still needs and within which bounds the next one has to lie. The bounds leave out codes
that have a shorter form, surrogates, and what is beyond the last character.
-/

set_option autoImplicit false

namespace Lox

namespace Utf8

/-- Why bytes are no text: a sequence that cannot be continued so, with the number of its
bytes that could still have been right, or one that the end cuts off. -/
inductive Fault
  | invalid (start length : Nat)
  | incomplete (start : Nat)
deriving DecidableEq

def Fault.message : Fault → String
  | .invalid start length =>
    "invalid utf-8 sequence of " ++ toString length ++ " bytes from index " ++ toString start
  | .incomplete start => "incomplete utf-8 byte sequence from index " ++ toString start

/-- A character that has begun: where, how many bytes were read and are missing, the bounds
of the next one, and the code so far. -/
structure Pending where
  start : Nat
  seen : Nat
  missing : Nat
  low : Nat
  high : Nat
  code : Nat

/-- The character that a first byte beyond ASCII begins. -/
def begin? (index byte : Nat) : Option Pending :=
  if byte < 0xC2 then none
  else if byte ≤ 0xDF then some ⟨index, 1, 1, 0x80, 0xBF, byte - 0xC0⟩
  else if byte = 0xE0 then some ⟨index, 1, 2, 0xA0, 0xBF, 0⟩
  else if byte = 0xED then some ⟨index, 1, 2, 0x80, 0x9F, 0xD⟩
  else if byte ≤ 0xEF then some ⟨index, 1, 2, 0x80, 0xBF, byte - 0xE0⟩
  else if byte = 0xF0 then some ⟨index, 1, 3, 0x90, 0xBF, 0⟩
  else if byte ≤ 0xF3 then some ⟨index, 1, 3, 0x80, 0xBF, byte - 0xF0⟩
  else if byte = 0xF4 then some ⟨index, 1, 3, 0x80, 0x8F, 4⟩
  else none

/-- Characters of the bytes from `index` on, after those in `done`, the last of them first. -/
def decodeFrom (index : Nat) (done : List Char) : Option Pending → List UInt8 →
    Except Fault (List Char)
  | none, [] => .ok done.reverse
  | some p, [] => .error (.incomplete p.start)
  | none, b :: rest =>
    if b.toNat < 0x80 then decodeFrom (index + 1) (Char.ofNat b.toNat :: done) none rest
    else
      match begin? index b.toNat with
      | some p => decodeFrom (index + 1) done (some p) rest
      | none => .error (.invalid index 1)
  | some p, b :: rest =>
    if b.toNat < p.low ∨ p.high < b.toNat then .error (.invalid p.start p.seen)
    else
      let code := p.code * 64 + b.toNat % 64
      if p.missing ≤ 1 then decodeFrom (index + 1) (Char.ofNat code :: done) none rest
      else
        let later : Pending := ⟨p.start, p.seen + 1, p.missing - 1, 0x80, 0xBF, code⟩
        decodeFrom (index + 1) done (some later) rest

def decode (bytes : List UInt8) : Except Fault String :=
  (decodeFrom 0 [] none bytes).map String.ofList

end Utf8

end Lox
