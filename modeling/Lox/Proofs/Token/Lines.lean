import Lox.Proofs.Token.Joining

/-!
Lines of items. A scanner counts a newline in the main loop or within a string, and leaves that of
a comment to the main loop; so between two items it has counted every newline that it has passed
and no other. What it yields next has passed one more piece of the text by then, and has its line
(`At.next_placed`); so it is for everything that it ever yields (`Yields.placed`).
-/

set_option autoImplicit false

namespace Lox

/-- Newlines among the first bytes of a text. -/
def newlinesUpTo (source : String) (last : Nat) : Nat :=
  (source.toByteArray.data.toList.take last).count (UInt8.ofNat '\n'.toNat)

theorem newlinesUpTo_utf8Len {source : String} {before : List Char} (rest : List Char)
    (h : source.toList = before ++ rest) :
    newlinesUpTo source (String.utf8Len before) = Scan.newlines before := by
  have hbytes : source.toByteArray.data.toList = encoded before ++ encoded rest := by
    rw [← encoded_append, ← h, ← String.ofList_toList (s := source), String.toByteArray_ofList,
      String.toList_ofList]
    exact List.toList_data_toByteArray
  have hcode : ∀ b : UInt8, b == UInt8.ofNat '\n'.toNat ↔ Char.ofUInt8 b == '\n' := fun b ↦ by
    rw [beq_iff_eq, beq_iff_eq, ← UInt8.toNat_inj, ← Char.toNat_inj, toNat_ofUInt8]
    rfl
  unfold newlinesUpTo
  rw [hbytes, ← length_encoded, List.take_left, ← countP_encoded, List.count_eq_countP]
  exact List.countP_congr fun b _ ↦ hcode b

namespace Scan

def Item.line : Item → Nat
  | .token t => t.line
  | .error line _ => line

theorem Piece.line_of_item? {p : Piece} {line : Nat} {item : Item} (h : p.item? line = some item) :
    item.line = line := by
  unfold Piece.item? at h
  split at h <;> cases h <;> rfl

/-- A character that begins nothing is no newline, since a newline is blank. -/
theorem newlines_unexpected {c d : Char} {cs : List Char}
    (h : (piece c cs).content = .error (.unexpectedCharacter d)) :
    newlines (piece c cs).lexeme = 0 := by
  have htold := told_piece c cs
  unfold Piece.Told at htold
  rw [h] at htold
  have hsplits := (piece_splits c cs).2
  rw [show (piece c cs).lexeme = [d] from htold] at hsplits ⊢
  obtain ⟨rfl, -⟩ := List.cons.inj hsplits
  refine List.count_eq_zero.2 fun hline ↦ ?_
  cases List.mem_singleton.1 hline
  cases h

theorem le_line_of_mem_itemsFrom {line : Nat} {text : List Char} :
    ∀ item ∈ itemsFrom line text, line ≤ item.line := by
  induction text using pieces_induct generalizing line with
  | nil => simp [itemsFrom, Item.line]
  | cons c cs ih =>
    rw [itemsFrom_cons]
    intro item hitem
    rcases List.mem_append.1 hitem with hitem | hitem
    · rw [Piece.line_of_item? (Option.mem_toList.1 hitem)]
      exact Nat.le_add_right _ _
    · exact Nat.le_trans (Nat.le_add_right _ _) (ih item hitem)

/-- Items are yielded in order of their lines. -/
theorem itemsFrom_inOrder (line : Nat) (text : List Char) :
    (itemsFrom line text).Pairwise fun x y ↦ x.line ≤ y.line := by
  induction text using pieces_induct generalizing line with
  | nil => simp [itemsFrom]
  | cons c cs ih =>
    rw [itemsFrom_cons]
    refine List.pairwise_append.2 ⟨?_, ih _, fun x hx y hy ↦ ?_⟩
    · cases (piece c cs).item? _ <;> simp
    · rw [Piece.line_of_item? (Option.mem_toList.1 hx)]
      exact le_line_of_mem_itemsFrom y hy

end Scan

namespace Scanner

open Scan

/-- An item and the scanner that has yielded it: the text up to the item, and from there on. -/
structure Placed (source : String) (item : Item) (s : Scanner) (before : List Char) (c : Char)
    (rest : List Char) : Prop where
  source : source.toList = before ++ c :: rest
  item : (piece c rest).item? s.line = some item
  start : s.start = String.utf8Len before
  current : s.current = String.utf8Len (before ++ (piece c rest).lexeme)
  line : s.line = 1 + newlines (before ++ (piece c rest).lexeme)

variable {s s' : Scanner} {before rest : List Char} {item : Item}

theorem Placed.source_eq {source : String} {c : Char} (h : Placed source item s before c rest) :
    source.toList = (before ++ (piece c rest).lexeme) ++ (piece c rest).rest := by
  rw [h.source, List.append_assoc, (piece_splits c rest).2]

theorem At.toList_source (h : s.At before rest) : s.source.toList = before ++ rest := by
  rw [h.source, String.toList_ofList]

theorem Placed.kind_ne {source : String} {c : Char} {t : Token}
    (h : Placed source item s before c rest) (ht : item = .token t) : t.kind ≠ .endOfInput :=
  (told_piece c rest).kind_ne (ht ▸ h.item)

/-- What a scanner yields next stands somewhere in what is left of the text, and the scanner goes
on after it; or it is the end of input, and the scanner is at rest. -/
theorem At.next_placed (h : s.At before rest) (hline : s.line = 1 + newlines before)
    (hnext : s.next = some (some item, s')) :
    (∃ before' c rest', Placed s.source item s' before' c rest' ∧ s'.source = s.source ∧
      s'.At (before' ++ (piece c rest').lexeme) (piece c rest').rest) ∨
    item = .token ⟨.endOfInput, "", 1 + newlines s.source.toList⟩ ∧ s'.next = some (none, s') := by
  induction rest using pieces_induct generalizing s before with
  | nil =>
    obtain ⟨hitem, rfl⟩ := Prod.mk.inj (Option.some.inj (h.next_nil.symm.trans hnext))
    have hsize : s.current = s.size := h.size.symm
    refine Or.inr ⟨?_, ?_⟩
    · rw [← Option.some.inj hitem, hline, h.toList_source, List.append_nil]
    · unfold Scanner.next
      change (if s.current + 1 < s.size then _ else if s.current + 1 = s.size then _ else _) = _
      rw [if_neg (by omega), if_neg (by omega)]
  | cons c cs ih =>
    have hat : (s.begun.passed (piece c cs).lexeme).At (before ++ (piece c cs).lexeme)
        (piece c cs).rest := At.passed _ (by rw [(piece_splits c cs).2]; exact h.begun)
    have hline' : (s.begun.passed (piece c cs).lexeme).line =
        1 + newlines (before ++ (piece c cs).lexeme) := by
      change s.line + _ = _
      rw [hline, newlines_append, Nat.add_assoc]
    rw [h.next_cons] at hnext
    cases hitem : (piece c cs).item? (s.begun.passed (piece c cs).lexeme).line with
    | none =>
      rw [hitem] at hnext
      have hlater := ih hat hline' hnext
      exact hlater
    | some found =>
      rw [hitem] at hnext
      obtain ⟨hfound, rfl⟩ := Prod.mk.inj (Option.some.inj hnext)
      cases hfound
      exact Or.inl ⟨before, c, cs,
        ⟨h.toList_source, hitem, h.current, hat.current, hline'⟩, rfl, hat⟩

/-- Whatever a scanner yields stands somewhere in the text, or is the end of input. -/
theorem Yields.placed {row : List (Item × Scanner)} (hrow : s.Yields row) (h : s.At before rest)
    (hline : s.line = 1 + newlines before) :
    ∀ x ∈ row, (∃ before' c rest', Placed s.source x.1 x.2 before' c rest') ∨
      x.1 = .token ⟨.endOfInput, "", 1 + newlines s.source.toList⟩ := by
  induction hrow generalizing before rest with
  | ended => exact fun x hx ↦ absurd hx List.not_mem_nil
  | @item s s' item later hnext hlater ih =>
    intro x hx
    rcases h.next_placed hline hnext with ⟨before', c, rest', hplaced, hsource, hat⟩ | ⟨rfl, hover⟩
    · rcases List.mem_cons.1 hx with rfl | hx
      · exact Or.inl ⟨before', c, rest', hplaced⟩
      · rw [← hsource]
        exact ih hat hplaced.line x hx
    · cases hlater with
      | ended => exact Or.inr (by rw [List.mem_singleton.1 hx])
      | item hmore _ => exact absurd (hover.symm.trans hmore) (by simp)

/-- The scanner of a text yields its items, each where it stands in the text, and then the end of
input, on the last line. -/
theorem yields_placed (source : String) :
    ∃ found last,
      (ofSource source).Yields (found ++ [(.token ⟨.endOfInput, "", last.line⟩, last)]) ∧
        items source = found.map Prod.fst ++ [.token ⟨.endOfInput, "", last.line⟩] ∧
        last.line = 1 + newlines source.toList ∧
        ∀ x ∈ found, x.2.span.Shows source x.1 ∧
          ∃ before c rest, Placed source x.1 x.2 before c rest := by
  have hat : (ofSource source).At [] source.toList := ⟨String.ofList_toList.symm, rfl⟩
  obtain ⟨found, last, blanks, hyields, hitems, hcovers⟩ := hat.yields rfl
  have hplaced := hyields.placed hat rfl
  refine ⟨found, last, hyields, hitems, ?_, fun x hx ↦ ?_⟩
  · rcases hplaced _ List.mem_concat_self with ⟨before, c, rest, h⟩ | h
    · exact absurd rfl (h.kind_ne rfl)
    · injection h with h
      exact congrArg Token.line h
  · have hshows := (hcovers.shown x hx).2.2
    refine ⟨hshows, (hplaced x (List.mem_append_left _ hx)).resolve_right fun h ↦ ?_⟩
    rw [h] at hshows
    exact hshows.2.1 rfl

theorem newlinesUpTo_size (source : String) :
    newlinesUpTo source source.utf8ByteSize = newlines source.toList := by
  have hsize : source.utf8ByteSize = String.utf8Len source.toList := by
    rw [← String.utf8ByteSize_ofList, String.ofList_toList]
  rw [hsize, newlinesUpTo_utf8Len [] (List.append_nil _).symm]

/-- Up to where the newlines before an item are counted: to its end if it is a token, to its start
if it is a character that begins nothing, and to the end of the text if a string is open there. -/
def counted (source : String) (s : Scanner) : Item → Nat
  | .token _ => s.current
  | .error _ (.unexpectedCharacter _) => s.start
  | .error _ .unterminatedString => source.utf8ByteSize

theorem Placed.line_eq {source : String} {c : Char} (h : Placed source item s before c rest) :
    item.line = 1 + newlinesUpTo source (counted source s item) := by
  have htold := told_piece c rest
  have hitem := h.item
  rw [Piece.line_of_item? hitem, h.line]
  unfold Piece.item? at hitem
  unfold Piece.Told at htold
  split at hitem
  next => cases hitem
  next =>
    cases hitem
    rw [counted, h.current, newlinesUpTo_utf8Len _ h.source_eq]
  next cause hcontent =>
    rw [hcontent] at htold
    cases hitem
    cases cause with
    | unexpectedCharacter d =>
      rw [counted, h.start, newlinesUpTo_utf8Len _ h.source, newlines_append,
        newlines_unexpected hcontent, Nat.add_zero]
    | unterminatedString =>
      rw [counted, newlinesUpTo_size, h.source_eq, htold.1, List.append_nil]

/-- Every item has the line that the newlines before it tell: before its end if it is a token,
before the character that begins nothing, and in the whole text if a string is open there. So the
lines of the items do not decrease. -/
theorem lines_exact (source : String) :
    ∃ found last,
      (ofSource source).Yields (found ++ [(.token ⟨.endOfInput, "", last.line⟩, last)]) ∧
        items source = found.map Prod.fst ++ [.token ⟨.endOfInput, "", last.line⟩] ∧
        last.line = 1 + newlinesUpTo source source.utf8ByteSize ∧
        (∀ x ∈ found, x.2.span.Shows source x.1 ∧
          x.1.line = 1 + newlinesUpTo source (counted source x.2 x.1)) ∧
        (items source).Pairwise fun x y ↦ x.line ≤ y.line := by
  obtain ⟨found, last, hyields, hitems, hlast, hplaced⟩ := yields_placed source
  refine ⟨found, last, hyields, hitems, newlinesUpTo_size source ▸ hlast, fun x hx ↦ ?_,
    itemsFrom_inOrder 1 _⟩
  obtain ⟨hshows, before, c, rest, h⟩ := hplaced x hx
  exact ⟨hshows, h.line_eq⟩

end Scanner

end Lox
