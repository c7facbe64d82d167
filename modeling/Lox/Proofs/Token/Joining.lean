import Lox.Grammar.Reply
import Lox.Proofs.Token.Ranges

/-!
The items of two texts with a line break between them. Where the first text has no lexical error
each of its pieces ends before the break or at it, since no piece but an open string or a comment
runs over what stops the others, and a comment stops at the break. So the items are those of the
first text without its end, and those of the second on later lines.
-/

set_option autoImplicit false

namespace Lox

/-- The token so many lines later. -/
def Token.later (lines : Nat) (t : Token) : Token := { t with line := t.line + lines }

namespace Scan

def Item.later (lines : Nat) : Item → Item
  | .token t => .token (t.later lines)
  | .error line cause => .error (line + lines) cause

theorem newlines_append (cs ds : List Char) : newlines (cs ++ ds) = newlines cs + newlines ds :=
  List.count_append

theorem Piece.item?_later (p : Piece) (line lines : Nat) :
    p.item? (line + lines) = (p.item? line).map (Item.later lines) := by
  unfold Piece.item?
  split <;> rfl

theorem itemsFrom_cons (line : Nat) (c : Char) (cs : List Char) :
    let p := piece c cs
    itemsFrom line (c :: cs) = (p.item? (line + newlines p.lexeme)).toList ++
      itemsFrom (line + newlines p.lexeme) p.rest := by
  rw [itemsFrom]
  dsimp only
  split
  next item hitem => rw [hitem]; rfl
  next hitem => rw [hitem]; rfl

/-- Induction over the pieces of a text. -/
theorem pieces_induct {motive : List Char → Prop} (nil : motive [])
    (cons : ∀ c cs, motive (piece c cs).rest → motive (c :: cs)) (text : List Char) :
    motive text := by
  induction hn : text.length using Nat.strongRecOn generalizing text with
  | ind n ih =>
    cases text with
    | nil => exact nil
    | cons c cs =>
      have hshorter := piece_rest_length c cs
      exact cons c cs (ih _ (by rw [← hn, List.length_cons]; omega) _ rfl)

/-- A text that begins on a later line has its items on later lines. -/
theorem itemsFrom_later (line lines : Nat) (text : List Char) :
    itemsFrom (line + lines) text = (itemsFrom line text).map (Item.later lines) := by
  induction text using pieces_induct generalizing line with
  | nil => simp [itemsFrom, Item.later, Token.later]
  | cons c cs ih =>
    rw [itemsFrom_cons, itemsFrom_cons, Nat.add_right_comm, Piece.item?_later, ih, List.map_append]
    cases (piece c cs).item? _ <;> rfl

/-! ### Pieces before a line break -/

/-- What is taken while a condition holds ends before a character that ends it, whatever comes
after, and before any character if something in the text already ends it. -/
theorem takeWhile_append_stop (p : Char → Bool) (cs : List Char) (stop : Char) (more : List Char)
    (h : cs.dropWhile p ≠ [] ∨ p stop = false) :
    (cs ++ stop :: more).takeWhile p = cs.takeWhile p ∧
      (cs ++ stop :: more).dropWhile p = cs.dropWhile p ++ stop :: more := by
  induction cs with
  | nil =>
    have hstop : p stop = false := h.resolve_left fun h ↦ h rfl
    simp [hstop]
  | cons c cs ih =>
    cases hc : p c with
    | true =>
      rw [List.dropWhile_cons_of_pos hc] at h
      obtain ⟨htake, hdrop⟩ := ih h
      simp [hc, htake, hdrop]
    | false => simp [hc]

/-- The piece with more text after it. -/
def Piece.before (p : Piece) (more : List Char) : Piece := { p with rest := p.rest ++ more }

variable {more : List Char}

theorem extended_before (c : Char) (kinds : Token.Kind × Token.Kind) (cs : List Char) :
    extended c kinds (cs ++ '\n' :: more) = (extended c kinds cs).before ('\n' :: more) := by
  cases cs with
  | nil => rfl
  | cons d ds =>
    by_cases hd : d = '='
    · subst hd
      rfl
    · simp [extended, hd, Piece.before]

theorem slash_before (cs : List Char) :
    slash (cs ++ '\n' :: more) = (slash cs).before ('\n' :: more) := by
  cases cs with
  | nil => rfl
  | cons d ds =>
    by_cases hd : d = '/'
    · subst hd
      obtain ⟨htake, hdrop⟩ := takeWhile_append_stop notNewline ds '\n' more
        (Or.inr (by decide))
      simp [slash, Piece.before, htake, hdrop]
    · simp [slash, hd, Piece.before]

theorem string_before {cs : List Char} (h : (string cs).content ≠ .error .unterminatedString) :
    string (cs ++ '\n' :: more) = (string cs).before ('\n' :: more) := by
  have hclosed : cs.dropWhile notQuote ≠ [] := fun hopen ↦ h (by simp [string, hopen])
  obtain ⟨htake, hdrop⟩ := takeWhile_append_stop notQuote cs '\n' more (Or.inl hclosed)
  unfold string
  dsimp only
  rw [htake, hdrop]
  cases hrest : cs.dropWhile notQuote with
  | nil => exact absurd hrest hclosed
  | cons quote rest => rfl

theorem number_before (c : Char) (cs : List Char) :
    number c (cs ++ '\n' :: more) = (number c cs).before ('\n' :: more) := by
  have hstop : isDigit '\n' = false := by decide
  obtain ⟨htake, hdrop⟩ := takeWhile_append_stop isDigit cs '\n' more (Or.inr hstop)
  unfold number
  dsimp only
  rw [htake, hdrop]
  match cs.dropWhile isDigit with
  | [] => rfl
  | [d] =>
    by_cases hd : d = '.'
    · subst hd
      simp [hstop, Piece.before]
    · simp [hd, Piece.before]
  | d :: e :: ds =>
    obtain ⟨htake', hdrop'⟩ := takeWhile_append_stop isDigit ds '\n' more (Or.inr hstop)
    by_cases hd : d = '.'
    · subst hd
      by_cases he : isDigit e
      · simp [he, htake', hdrop', Piece.before]
      · simp [he, Piece.before]
    · simp [hd, Piece.before]

theorem word_before (c : Char) (cs : List Char) :
    word c (cs ++ '\n' :: more) = (word c cs).before ('\n' :: more) := by
  obtain ⟨htake, hdrop⟩ := takeWhile_append_stop isWordPart cs '\n' more (Or.inr (by decide))
  unfold word
  dsimp only
  rw [htake, hdrop]
  rfl

theorem piece_before (c : Char) {cs : List Char}
    (h : (piece c cs).content ≠ .error .unterminatedString) :
    piece c (cs ++ '\n' :: more) = (piece c cs).before ('\n' :: more) := by
  unfold piece at h ⊢
  cases hmark : mark? c with
  | some kind => rfl
  | none =>
    cases hextensible : extensible? c with
    | some kinds => exact extended_before c kinds cs
    | none =>
      rw [hmark, hextensible] at h
      dsimp only at h ⊢
      by_cases hblank : isBlank c
      · rw [if_pos hblank, if_pos hblank]
        rfl
      rw [if_neg hblank] at h ⊢
      rw [if_neg hblank]
      by_cases hslash : c = '/'
      · rw [if_pos hslash, if_pos hslash]
        exact slash_before cs
      rw [if_neg hslash] at h ⊢
      rw [if_neg hslash]
      by_cases hquote : c = '"'
      · rw [if_pos hquote] at h ⊢
        rw [if_pos hquote]
        exact string_before h
      rw [if_neg hquote, if_neg hquote]
      by_cases hdigit : isDigit c
      · rw [if_pos hdigit, if_pos hdigit]
        exact number_before c cs
      rw [if_neg hdigit, if_neg hdigit]
      by_cases hword : isWordStart c
      · rw [if_pos hword, if_pos hword]
        exact word_before c cs
      rw [if_neg hword, if_neg hword]
      rfl

/-! ### The items of both texts -/

def Item.isToken : Item → Bool
  | .token _ => true
  | .error _ _ => false

theorem itemsFrom_ne_nil (line : Nat) (text : List Char) : itemsFrom line text ≠ [] := by
  induction text using pieces_induct generalizing line with
  | nil =>
    rw [itemsFrom]
    exact List.cons_ne_nil _ _
  | cons c cs ih =>
    rw [itemsFrom_cons]
    exact List.append_ne_nil_of_right_ne_nil _ (ih _)

/-- A text whose items are tokens is followed by the items of what comes after its line break. -/
theorem itemsFrom_join (line : Nat) (text more : List Char)
    (h : ∀ item ∈ itemsFrom line text, item.isToken) :
    itemsFrom line (text ++ '\n' :: more) =
      (itemsFrom line text).dropLast ++ itemsFrom (line + newlines text + 1) more := by
  induction text using pieces_induct generalizing line with
  | nil =>
    rw [List.nil_append, itemsFrom_cons, itemsFrom]
    rfl
  | cons c cs ih =>
    rw [itemsFrom_cons] at h
    have hclosed : (piece c cs).content ≠ .error .unterminatedString := fun hopen ↦ by
      have htoken := h (.error _ .unterminatedString) (List.mem_append_left _ (by
        rw [Piece.item?, hopen]
        exact List.mem_cons_self))
      cases htoken
    have hlines :
        newlines (c :: cs) = newlines (piece c cs).lexeme + newlines (piece c cs).rest := by
      rw [← newlines_append, (piece_splits c cs).2]
    rw [List.cons_append, itemsFrom_cons, piece_before c hclosed]
    change ((piece c cs).item? (line + newlines (piece c cs).lexeme)).toList ++
      itemsFrom (line + newlines (piece c cs).lexeme) ((piece c cs).rest ++ '\n' :: more) = _
    rw [ih _ fun item hitem ↦ h item (List.mem_append_right _ hitem), itemsFrom_cons,
      List.dropLast_append_of_ne_nil (itemsFrom_ne_nil _ _), List.append_assoc, hlines,
      ← Nat.add_assoc]

/-- The items of a text end with the end of input, which is on the last line and nowhere else. -/
theorem itemsFrom_ends (line : Nat) (text : List Char) :
    ∃ before, itemsFrom line text = before ++ [.token ⟨.endOfInput, "", line + newlines text⟩] ∧
      ∀ t, .token t ∈ before → t.kind ≠ .endOfInput := by
  induction text using pieces_induct generalizing line with
  | nil =>
    rw [itemsFrom]
    exact ⟨[], rfl, fun t ht ↦ absurd ht List.not_mem_nil⟩
  | cons c cs ih =>
    obtain ⟨before, hitems, hbefore⟩ := ih (line + newlines (piece c cs).lexeme)
    have hlines :
        newlines (c :: cs) = newlines (piece c cs).lexeme + newlines (piece c cs).rest := by
      rw [← newlines_append, (piece_splits c cs).2]
    refine ⟨((piece c cs).item? (line + newlines (piece c cs).lexeme)).toList ++ before, ?_,
      fun t ht ↦ ?_⟩
    · rw [itemsFrom_cons, hitems, hlines, List.append_assoc, Nat.add_assoc]
    · rcases List.mem_append.1 ht with ht | ht
      · exact (told_piece c cs).kind_ne (Option.mem_toList.1 ht)
      · exact hbefore t ht

/-- The last token of a text is the end of input, and no other one is. -/
theorem tokens_ends (source : String) :
    ∃ before last, items source = before ++ [last] ∧
      tokens source =
        before.filterMap Item.token? ++ [⟨.endOfInput, "", 1 + newlines source.toList⟩] ∧
      ∀ t ∈ before.filterMap Item.token?, t.kind ≠ .endOfInput := by
  obtain ⟨before, hitems, hbefore⟩ := itemsFrom_ends 1 source.toList
  refine ⟨before, _, hitems, ?_, fun t ht ↦ ?_⟩
  · unfold tokens items
    rw [hitems, List.filterMap_append]
    rfl
  · obtain ⟨item, hitem, htoken⟩ := List.mem_filterMap.1 ht
    cases item with
    | token t' =>
      cases htoken
      exact hbefore _ hitem
    | error line cause => cases htoken

/-- Reading begins with the tokens of all items but the last. -/
theorem ofTokens_tokens (source : String) :
    ∃ before last, items source = before ++ [last] ∧
      (Cursor.ofTokens (tokens source)).rest = before.filterMap Item.token? := by
  obtain ⟨before, last, hitems, htokens, hkinds⟩ := tokens_ends source
  refine ⟨before, last, hitems, ?_⟩
  change (tokens source).takeWhile _ = _
  rw [htokens, List.takeWhile_append_of_pos fun t ht ↦ decide_eq_true (hkinds t ht)]
  simp

theorem isToken_of_diagnostics {source : String} (h : diagnostics source = []) :
    ∀ item ∈ items source, item.isToken := by
  intro item hitem
  cases item with
  | token t => rfl
  | error line cause =>
    have hmem : Diagnostic.lexical line cause ∈ diagnostics source :=
      List.mem_filterMap.2 ⟨_, hitem, rfl⟩
    rw [h] at hmem
    cases hmem

/-- The items of a text without lexical errors, a line break and another text. -/
theorem items_join {first : String} (h : diagnostics first = []) (second : String) :
    items (first ++ "\n" ++ second) = (items first).dropLast ++
      (items second).map (Item.later (newlines first.toList + 1)) := by
  have htext : (first ++ "\n" ++ second).toList = first.toList ++ '\n' :: second.toList := by
    simp [String.toList_append]
  unfold items
  rw [htext, itemsFrom_join 1 _ _ (isToken_of_diagnostics h), Nat.add_assoc, itemsFrom_later]

theorem diagnostics_join {first second : String} (h : diagnostics first = [])
    (h' : diagnostics second = []) : diagnostics (first ++ "\n" ++ second) = [] := by
  unfold diagnostics
  rw [items_join h]
  refine List.filterMap_eq_nil_iff.2 fun item hitem ↦ ?_
  have htoken : item.isToken := by
    rcases List.mem_append.1 hitem with hitem | hitem
    · exact isToken_of_diagnostics h item (List.dropLast_subset _ hitem)
    · obtain ⟨item', hitem', rfl⟩ := List.mem_map.1 hitem
      have := isToken_of_diagnostics h' item' hitem'
      cases item' with
      | token t => rfl
      | error line cause => cases this
  cases item with
  | token t => rfl
  | error line cause => cases htoken

/-- Reading of both texts begins with the tokens of the first and those of the second, later. -/
theorem ofTokens_join {first : String} (h : diagnostics first = []) (second : String) :
    (Cursor.ofTokens (tokens (first ++ "\n" ++ second))).rest =
      (Cursor.ofTokens (tokens first)).rest ++
        (Cursor.ofTokens (tokens second)).rest.map (Token.later (newlines first.toList + 1)) := by
  obtain ⟨before, _, hitems, hrest⟩ := ofTokens_tokens (first ++ "\n" ++ second)
  obtain ⟨before₁, _, hitems₁, hrest₁⟩ := ofTokens_tokens first
  obtain ⟨before₂, _, hitems₂, hrest₂⟩ := ofTokens_tokens second
  rw [items_join h, hitems₁, hitems₂, List.dropLast_concat, List.map_append, ← List.append_assoc]
    at hitems
  obtain ⟨hbefore, -⟩ := List.append_inj' hitems rfl
  rw [hrest, hrest₁, hrest₂, ← hbefore, List.filterMap_append, List.filterMap_map,
    List.map_filterMap]
  congr 1
  refine List.filterMap_congr fun item _ ↦ ?_
  cases item <;> rfl

end Scan

end Lox
