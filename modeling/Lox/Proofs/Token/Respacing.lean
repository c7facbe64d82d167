import Lox.Proofs.Outlines.Words
import Lox.Proofs.Token.Lexemes
import Lox.Proofs.Token.Lines

/-!
The lexemes of a text with single spaces between them. A space severs the lexemes on its sides, so
each of them is found again, and is a token of the kind that it has by itself. Whatever stood
between the tokens of the text has no part in what they are.
-/

set_option autoImplicit false

namespace Lox

namespace Scan

/-- The tokens of a text before the end of input. -/
def lexicals (source : String) : List Token := (tokens source).filter fun t ↦ t.kind ≠ .endOfInput

theorem tokens_eq (source : String) :
    ∃ line, tokens source = lexicals source ++ [⟨.endOfInput, "", line⟩] := by
  obtain ⟨before, _, -, htokens, hkinds⟩ := tokens_ends source
  have hself : (before.filterMap Item.token?).filter (fun t ↦ t.kind ≠ .endOfInput) =
      before.filterMap Item.token? :=
    List.filter_eq_self.2 fun t ht ↦ decide_eq_true (hkinds t ht)
  refine ⟨1 + newlines source.toList, ?_⟩
  unfold lexicals
  rw [htokens, List.filter_append, hself]
  simp

theorem lexical {source : String} {t : Token} (h : t ∈ lexicals source) :
    t.kind ≠ .endOfInput ∧ Lexeme t.kind t.lexeme.toList := by
  obtain ⟨htoken, hkind⟩ := List.mem_filter.1 h
  have hkind : t.kind ≠ .endOfInput := of_decide_eq_true hkind
  exact ⟨hkind, lexeme_of_token htoken hkind⟩

/-- The lexemes of a text with single spaces between them. -/
def respaced (source : String) : String := " ".intercalate ((lexicals source).map Token.lexeme)

theorem itemsFrom_space (line : Nat) (more : List Char) :
    itemsFrom line (' ' :: more) = itemsFrom line more := itemsFrom_cons line ' ' more

theorem itemsFrom_spaced {ts : List Token} (h : ∀ t ∈ ts, Lexeme t.kind t.lexeme.toList)
    (line : Nat) : ∃ ts' last, SameWords ts' ts ∧
      itemsFrom line (" ".intercalate (ts.map Token.lexeme)).toList =
        ts'.map Item.token ++ [.token ⟨.endOfInput, "", last⟩] := by
  induction ts generalizing line with
  | nil => exact ⟨[], line, .nil, by rw [List.map_nil]; exact Scan.itemsFrom.eq_1 line⟩
  | cons t ts ih =>
    have hlexeme := h t List.mem_cons_self
    let t' : Token := ⟨t.kind, t.lexeme, line + newlines t.lexeme.toList⟩
    cases ts with
    | nil =>
      have hitems := hlexeme.itemsFrom severed_nil line
      rw [List.append_nil, String.ofList_toList] at hitems
      exact ⟨[t'], _, .cons ⟨rfl, rfl⟩ .nil, by simpa [Scan.itemsFrom] using hitems⟩
    | cons u ts =>
      obtain ⟨ts', last, hsame, hitems⟩ := ih (fun v hv ↦ h v (List.mem_cons_of_mem _ hv))
        (line + newlines t.lexeme.toList)
      have hitem := hlexeme.itemsFrom (severed_cons (by decide : Severs ' ')
        (" ".intercalate ((u :: ts).map Token.lexeme)).toList) line
      rw [String.ofList_toList, itemsFrom_space, hitems] at hitem
      refine ⟨t' :: ts', last, .cons ⟨rfl, rfl⟩ hsame, ?_⟩
      rw [List.map_cons, List.map_cons, String.intercalate_cons_cons]
      simpa [String.toList_append] using hitem

end Scan

namespace Scanner

open Scan

/-! ### The longest lexeme -/

variable {source : String} {s : Scanner} {before rest : List Char} {c : Char}

/-- A slice that begins after some of the characters of a text begins what comes after them. -/
theorem slice?_begins {first last : Nat} {text : String} (hsource : source.toList = before ++ rest)
    (hfirst : first = String.utf8Len before) (h : slice? source first last = some text) :
    last = first + String.utf8Len text.toList ∧ text.toList <+: rest := by
  have hvalid : first ≤ last ∧ String.Pos.Raw.IsValid source ⟨last⟩ := by
    by_contra hnot
    rw [slice?, if_neg fun h ↦ hnot ⟨h.1, h.2.2⟩] at h
    cases h
  obtain ⟨upTo, beyond, hsplit, hend⟩ := String.Pos.Raw.isValid_iff_exists_append.1 hvalid.2
  have hlast : last = String.utf8Len upTo.toList := by
    rw [← String.ofList_toList (s := upTo), String.rawEndPos_ofList] at hend
    exact congrArg String.Pos.Raw.byteIdx hend
  have hlists : before ++ rest = upTo.toList ++ beyond.toList := by
    rw [← hsource, hsplit, String.toList_append]
  obtain ⟨middle, hmiddle⟩ : before <+: upTo.toList := by
    rcases List.prefix_or_prefix_of_prefix (List.prefix_append before rest)
      (hlists ▸ List.prefix_append upTo.toList beyond.toList) with hbefore | ⟨less, hless⟩
    · exact hbefore
    · -- what is as long as its beginning is its beginning
      have hlength := congrArg String.utf8Len hless
      rw [String.utf8Len_append, ← hlast, ← hfirst] at hlength
      have hnil : less = [] := String.utf8Len_eq_zero.1 (by omega)
      rw [hnil, List.append_nil] at hless
      exact ⟨[], by rw [List.append_nil, hless]⟩
  have hrest : rest = middle ++ beyond.toList := by
    rw [← hmiddle, List.append_assoc] at hlists
    exact List.append_cancel_left hlists
  have hsum : last = first + String.utf8Len middle := by
    rw [hlast, ← hmiddle, String.utf8Len_append, hfirst]
  have hslice : slice? source first last = some (String.ofList middle) :=
    slice?_middle (s := ofSource source) before middle beyond.toList
      (by rw [List.append_assoc, ← hrest, ← hsource, String.ofList_toList]; rfl) hfirst
      (by rw [hsum, hfirst])
  cases h.symm.trans hslice
  rw [String.toList_ofList]
  exact ⟨hsum, hrest ▸ List.prefix_append _ _⟩

theorem Placed.token {t : Token} (h : Placed source (.token t) s before c rest) :
    (piece c rest).content = .token t.kind ∧ t.lexeme = String.ofList (piece c rest).lexeme := by
  have hitem := h.item
  unfold Piece.item? at hitem
  split at hitem
  next => cases hitem
  next kind hcontent =>
    cases hitem
    exact ⟨hcontent, rfl⟩
  next => cases hitem

/-- Nothing that goes on beyond a token, from where it begins, is one token. -/
theorem Placed.longest {t : Token} (h : Placed source (.token t) s before c rest) {last : Nat}
    {text : String} (hlast : s.current < last) (htext : slice? source s.start last = some text)
    (kind : Token.Kind) : ¬ReadsAs text kind := by
  rw [readsAs_iff]
  intro hlexeme
  obtain ⟨hend, more, hmore⟩ := slice?_begins h.source h.start htext
  have hle := hlexeme.length_le hmore
  have hpiece : (piece c rest).lexeme <+: c :: rest := ⟨_, (piece_splits c rest).2⟩
  obtain ⟨between, hbetween⟩ := List.prefix_of_prefix_length_le ⟨more, hmore⟩ hpiece hle
  have hcurrent := h.current
  rw [String.utf8Len_append, ← hbetween, String.utf8Len_append, ← h.start] at hcurrent
  omega

/-- The lexemes of a text, with single spaces between them, are read without an error as the same
tokens. So each of them is of the kind that it has by itself, and it is the longest lexeme that
begins where it begins. -/
theorem respacing_keeps_tokens (source : String) :
    diagnostics (respaced source) = [] ∧ SameWords (tokens (respaced source)) (tokens source) ∧
      ∃ found last,
        (ofSource source).Yields (found ++ [(.token ⟨.endOfInput, "", last.line⟩, last)]) ∧
          items source = found.map Prod.fst ++ [.token ⟨.endOfInput, "", last.line⟩] ∧
          ∀ t s, (.token t, s) ∈ found →
            slice? source s.start s.current = some t.lexeme ∧ ReadsAs t.lexeme t.kind ∧
              ∀ beyond text, s.current < beyond → slice? source s.start beyond = some text →
                ∀ kind, ¬ReadsAs text kind := by
  obtain ⟨found, last, hyields, hitems, -, hplaced⟩ := yields_placed source
  obtain ⟨ts, final, hsame, hrespaced⟩ := itemsFrom_spaced (fun _ ht ↦ (lexical ht).2) 1
  have hrespaced : items (respaced source) =
    ts.map Item.token ++ [.token ⟨.endOfInput, "", final⟩] := hrespaced
  obtain ⟨line, htokens⟩ := tokens_eq source
  refine ⟨?_, ?_, found, last, hyields, hitems, fun t s hx ↦ ?_⟩
  · simp [diagnostics, hrespaced, Item.diagnostic?, List.filterMap_map, Function.comp_def]
  · have htokens' : tokens (respaced source) = ts ++ [⟨.endOfInput, "", final⟩] := by
      simp [tokens, hrespaced, Item.token?, List.filterMap_map, Function.comp_def]
    rw [htokens, htokens']
    exact List.rel_append hsame (.cons ⟨rfl, rfl⟩ .nil)
  · obtain ⟨hshows, before, c, rest, h⟩ := hplaced _ hx
    refine ⟨hshows.1, readsAs_iff.2 ?_, fun beyond text hbeyond htext ↦ h.longest hbeyond htext⟩
    rw [h.token.2, String.toList_ofList]
    exact lexeme_of_piece h.token.1

end Scanner

end Lox
