import Lox.Token.Scanner
import Mathlib.Data.String.Basic

/-!
What a scanner of bytes makes of a text of characters. A byte beyond ASCII is part of a character
beyond ASCII; so whatever is asked of a byte has the answer that it has for the character, as long
as it has one answer for all that is beyond ASCII. A scanner that stands between two characters
passes whole characters then, whatever the bytes that make them up.
-/

set_option autoImplicit false

namespace Lox

/-- Bytes of a row of characters. -/
def encoded (cs : List Char) : List UInt8 := cs.flatMap String.utf8EncodeChar

@[simp] theorem encoded_nil : encoded [] = [] := rfl

@[simp] theorem encoded_cons (c : Char) (cs : List Char) :
    encoded (c :: cs) = String.utf8EncodeChar c ++ encoded cs := rfl

@[simp] theorem encoded_append (cs ds : List Char) :
    encoded (cs ++ ds) = encoded cs ++ encoded ds := List.flatMap_append

theorem length_encoded (cs : List Char) : (encoded cs).length = String.utf8Len cs := by
  induction cs with
  | nil => rfl
  | cons c cs ih =>
    rw [encoded_cons, List.length_append, ih, String.length_utf8EncodeChar, String.utf8Len_cons,
      Nat.add_comm]

/-! ### Characters within ASCII and beyond -/

theorem toNat_ofUInt8 (b : UInt8) : (Char.ofUInt8 b).toNat = b.toNat := rfl

theorem utf8EncodeChar_ascii {c : Char} (h : c.toNat < 128) :
    String.utf8EncodeChar c = [UInt8.ofNat c.toNat] := by
  unfold String.utf8EncodeChar
  exact if_pos (by change c.toNat ≤ 127; omega)

theorem ofUInt8_ascii {c : Char} (h : c.toNat < 128) : Char.ofUInt8 (UInt8.ofNat c.toNat) = c := by
  apply Char.toNat_inj.1
  rw [toNat_ofUInt8, UInt8.toNat_ofNat']
  omega

theorem le_of_mem_utf8EncodeChar {c : Char} (h : 128 ≤ c.toNat) {b : UInt8}
    (hb : b ∈ String.utf8EncodeChar c) : 128 ≤ b.toNat := by
  unfold String.utf8EncodeChar at hb
  change b ∈ (if c.toNat ≤ 127 then _ else _) at hb
  rw [if_neg (by omega)] at hb
  split at hb
  · simp only [List.mem_cons, List.not_mem_nil, or_false] at hb
    rcases hb with rfl | rfl <;> rw [UInt8.toNat_ofNat'] <;> omega
  split at hb
  · simp only [List.mem_cons, List.not_mem_nil, or_false] at hb
    rcases hb with rfl | rfl | rfl <;> rw [UInt8.toNat_ofNat'] <;> omega
  · simp only [List.mem_cons, List.not_mem_nil, or_false] at hb
    rcases hb with rfl | rfl | rfl | rfl <;> rw [UInt8.toNat_ofNat'] <;> omega

/-- The function has the same value for every character beyond ASCII. -/
def Bytewise {α : Type} (f : Char → α) : Prop := ∃ v, ∀ c : Char, 128 ≤ c.toNat → f c = v

/-- Its value for a character shows in every byte of it. -/
theorem Bytewise.byte {α : Type} {f : Char → α} (h : Bytewise f) {c : Char} {b : UInt8}
    (hb : b ∈ String.utf8EncodeChar c) : f (Char.ofUInt8 b) = f c := by
  obtain ⟨v, hv⟩ := h
  by_cases hc : c.toNat < 128
  · rw [utf8EncodeChar_ascii hc, List.mem_singleton] at hb
    rw [hb, ofUInt8_ascii hc]
  · have hc' : 128 ≤ c.toNat := by omega
    have hb' : 128 ≤ (Char.ofUInt8 b).toNat := le_of_mem_utf8EncodeChar hc' hb
    rw [hv _ hb', hv c hc']


theorem Bytewise.takeWhile {p : Char → Bool} (h : Bytewise p) (cs : List Char) :
    (encoded cs).takeWhile (fun b ↦ p (Char.ofUInt8 b)) = encoded (cs.takeWhile p) := by
  induction cs with
  | nil => rfl
  | cons c cs ih =>
    rw [encoded_cons, List.takeWhile_cons]
    cases hc : p c with
    | true =>
      rw [List.takeWhile_append_of_pos fun b hb ↦ (h.byte hb).trans hc, ih]
      rfl
    | false =>
      obtain ⟨b, bs, hbs⟩ := List.exists_cons_of_ne_nil (String.utf8EncodeChar_ne_nil (c := c))
      have hb : p (Char.ofUInt8 b) = false :=
        (h.byte (hbs ▸ List.mem_cons_self)).trans hc
      rw [hbs, List.cons_append, List.takeWhile_cons, hb]
      rfl

theorem bytewise_eq {c : Char} (hc : c.toNat < 128) : Bytewise fun d ↦ d == c :=
  ⟨false, fun d hd ↦ beq_eq_false_iff_ne.2 (by rintro rfl; omega)⟩

/-- Newlines are counted among bytes as they are among characters. -/
theorem countP_encoded (cs : List Char) :
    (encoded cs).countP (fun b ↦ Char.ofUInt8 b == '\n') = Scan.newlines cs := by
  induction cs with
  | nil => rfl
  | cons c cs ih =>
    have hnewline : Bytewise fun d ↦ d == '\n' := bytewise_eq (by decide)
    rw [encoded_cons, List.countP_append, ih]
    unfold Scan.newlines
    rw [List.count_cons, Nat.add_comm]
    congr 1
    cases hc : c == '\n' with
    | true =>
      rw [beq_iff_eq.1 hc]
      rfl
    | false =>
      exact List.countP_eq_zero.2 fun b hb ↦ by rw [hnewline.byte hb, hc]; decide

end Lox
