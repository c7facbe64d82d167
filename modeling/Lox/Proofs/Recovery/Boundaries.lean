import Lox.Proofs.Recovery.Isolation

/-!
Where reading resumes after an error in a declaration without statements inside. Such a declaration
ends with its only semicolon, and no token but its first one begins a statement. A semicolon behind
it is a boundary that reading never passes, wherever the error is. A token that begins a statement
is one as well, but only for errors at a token before it: the token at fault is dropped in any case,
so that one is lost if it is the first token that cannot go on.
-/

set_option autoImplicit false

namespace Lox

namespace Grammar

open Ebnf

/-! ### Words of declarations without statements inside -/

/-- Symbols of which expressions are made. -/
def Part.isExpression : Part → Bool
  | .expression | .assignment | .level _ | .unary | .call | .arguments | .primary => true
  | _ => false

/-- Tokens that neither end nor begin a statement. -/
def standsInside : Token.Kind → Bool
  | .semicolon | .class_ | .fun_ | .var | .for_ | .if_ | .while_ | .print | .return_ => false
  | _ => true

theorem standsInside_iff (t : Token) :
    standsInside t.kind = true ↔ t.kind ≠ .semicolon ∧ beginsStatement t = false := by
  obtain ⟨kind, lexeme, line⟩ := t
  cases kind <;> simp [standsInside, beginsStatement]

/-- Tokens and symbols inside of expressions. -/
abbrev Inside : Ebnf Part → Prop :=
  within (fun kind ↦ standsInside kind = true) fun s ↦ s.isExpression = true

theorem inside_rule (s : Part) (hs : s.isExpression = true) : Inside (relaxed s) := by
  cases s with
  | expression => rfl
  | assignment => exact within_mul rfl (within_opt (within_mul (within_only rfl) rfl))
  | level k =>
    have hpart : Inside (part k.part) := by cases k <;> rfl
    have hoperator : Inside (token k.isOperator) := by
      intro kind hkind
      cases k <;> cases kind <;> first | rfl | cases hkind
    exact within_mul hpart (within_mul hoperator hpart)
  | unary =>
    have hsign : Inside (token isSign) := by
      intro kind hkind
      cases kind <;> first | rfl | cases hkind
    exact within_add (within_mul hsign rfl) rfl
  | call =>
    have harguments : Inside (only .leftParen * opt (part .arguments) * only .rightParen) :=
      within_mul (within_mul (within_only rfl) (within_opt rfl)) (within_only rfl)
    exact within_mul rfl (within_add harguments (within_mul (within_only rfl) (within_only rfl)))
  | arguments => exact within_mul rfl (within_mul (within_only rfl) rfl)
  | primary =>
    have hatom : Inside (token isAtom) := by
      intro kind hkind
      cases kind <;> first | rfl | cases hkind
    have hgrouping : Inside (only .leftParen * part .expression * only .rightParen) :=
      within_mul (within_mul (within_only rfl) rfl) (within_only rfl)
    refine within_add (within_add hatom hgrouping) ?_
    exact within_mul (within_mul (within_only rfl) (within_only rfl)) (within_only rfl)
  | _ => cases hs

theorem standsInside_of_mem {e : Ebnf Part} (he : Inside e) {w : List Token} (h : w ∈ L e) :
    ∀ t ∈ w, standsInside t.kind = true :=
  within_of_mem inside_rule he h

/-- Tokens like those of a declaration without statements inside, up to its semicolon. -/
structure Unended (u : List Token) : Prop where
  noEnd : ∀ t ∈ u, t.kind ≠ .endOfInput
  noSemicolon : ∀ t ∈ u, t.kind ≠ .semicolon
  first : ∀ t ∈ u.head?, t.kind ∉ [.class_, .fun_, .for_, .if_, .while_, .else_, .leftBrace]
  others : ∀ t ∈ u.tail, beginsStatement t = false

/-- Words that are one token and an expression behind it, or the like. -/
theorem body_of_mem {kind : Token.Kind} (hkind : kind ≠ .semicolon) {e : Ebnf Part} (he : Inside e)
    {v : List Token} (h : v ∈ L (only kind * e)) :
    (∀ t ∈ v, t.kind ≠ .semicolon) ∧ ∀ t ∈ v.tail, standsInside t.kind = true := by
  rw [L_mul] at h
  obtain ⟨w, hw, v', hv', rfl⟩ := Language.mem_mul.1 h
  obtain ⟨t, ht, rfl⟩ := mem_words_token.1 hw
  have hinside := standsInside_of_mem he hv'
  refine ⟨fun t' ht' ↦ ?_, hinside⟩
  rcases List.mem_cons.1 ht' with rfl | ht'
  · rw [of_decide_eq_true ht]
    exact hkind
  · exact ((standsInside_iff t').1 (hinside t' ht')).1

/-- The last token of a declaration without statements inside is its only semicolon, and none but
its first token begins a statement. -/
theorem exists_of_mem_simple {kind : Token.Kind} (hsimple : isSimple kind = true) {w : List Token}
    (h : w ∈ L (part (simpleOf kind))) :
    ∃ v t, w = v ++ [t] ∧ t.kind = .semicolon ∧
      (∀ t ∈ v, t.kind ≠ .semicolon) ∧ ∀ t ∈ v.tail, standsInside t.kind = true := by
  have hbody : ∃ e, relaxed (simpleOf kind) = e * only .semicolon ∧ ∀ v ∈ L e,
      (∀ t ∈ v, t.kind ≠ .semicolon) ∧ ∀ t ∈ v.tail, standsInside t.kind = true := by
    cases kind with
    | var =>
      have hinside : Inside (only .identifier * opt (only .equal * part .expression)) :=
        within_mul (within_only rfl) (within_opt (within_mul (within_only rfl) rfl))
      refine ⟨_, rfl, fun v hv ↦ ?_⟩
      rw [L_mul, L_mul, mul_assoc, ← L_mul, ← L_mul] at hv
      exact body_of_mem (by decide) hinside hv
    | print => exact ⟨_, rfl, fun v hv ↦ body_of_mem (by decide) (e := part .expression) rfl hv⟩
    | return_ =>
      exact ⟨_, rfl, fun v hv ↦ body_of_mem (by decide) (e := opt (part .expression))
        (within_opt rfl) hv⟩
    | class_ | fun_ | for_ | if_ | while_ | leftBrace => cases hsimple
    | _ =>
      refine ⟨_, rfl, fun v hv ↦ ?_⟩
      have hinside := standsInside_of_mem (e := part .expression) rfl hv
      exact ⟨fun t ht ↦ ((standsInside_iff t).1 (hinside t ht)).1,
        fun t ht ↦ hinside t (List.mem_of_mem_tail ht)⟩
  obtain ⟨e, he, hbody⟩ := hbody
  rw [L_part, he, L_mul] at h
  obtain ⟨v, hv, u, hu, rfl⟩ := Language.mem_mul.1 h
  obtain ⟨t, ht, rfl⟩ := mem_words_token.1 hu
  obtain ⟨hsemicolon, hinside⟩ := hbody v hv
  exact ⟨v, t, rfl, of_decide_eq_true ht, hsemicolon, hinside⟩

/-- The first semicolon of a list of tokens. -/
theorem eq_of_first_semicolon {u v rest rest' : List Token} {t t' : Token}
    (hu : ∀ t ∈ u, t.kind ≠ .semicolon) (hv : ∀ t ∈ v, t.kind ≠ .semicolon)
    (ht : t.kind = .semicolon) (ht' : t'.kind = .semicolon)
    (h : u ++ t :: rest = v ++ t' :: rest') : u = v ∧ rest = rest' := by
  induction u generalizing v with
  | nil =>
    cases v with
    | nil =>
      cases h
      exact ⟨rfl, rfl⟩
    | cons x v =>
      cases h
      exact absurd ht (hv _ List.mem_cons_self)
  | cons x u ih =>
    cases v with
    | nil =>
      cases h
      exact absurd ht' (hu _ List.mem_cons_self)
    | cons x' v =>
      obtain ⟨rfl, htail⟩ := List.cons.inj h
      obtain ⟨rfl, hrest⟩ := ih (fun t hmem ↦ hu t (List.mem_cons_of_mem _ hmem))
        (fun t hmem ↦ hv t (List.mem_cons_of_mem _ hmem)) htail
      exact ⟨rfl, hrest⟩

/-! ### Resuming -/

/-- Tokens inside of a statement are passed. -/
theorem resumeAfter_inside {v : List Token} (hv : ∀ t ∈ v, standsInside t.kind = true)
    {previous : Token} (hprevious : previous.kind ≠ .semicolon) (w : List Token) :
    ∃ last : Token, last.kind ≠ .semicolon ∧
      resumeAfter previous (v ++ w) = resumeAfter last w := by
  induction v generalizing previous with
  | nil => exact ⟨previous, hprevious, rfl⟩
  | cons t v ih =>
    obtain ⟨hsemicolon, hbegins⟩ := (standsInside_iff t).1 (hv t List.mem_cons_self)
    obtain ⟨last, hlast, hresume⟩ := ih (fun t ht ↦ hv t (List.mem_cons_of_mem _ ht)) hsemicolon
    refine ⟨last, hlast, ?_⟩
    rw [List.cons_append, resumeAfter, if_neg, hresume]
    rintro (hend | hbegin)
    · exact hprevious hend
    · rw [hbegins] at hbegin
      cases hbegin

theorem resumeAfter_semicolon {t : Token} (ht : t.kind = .semicolon) (rest : List Token) :
    resumeAfter t rest = rest := by
  cases rest with
  | nil => rfl
  | cons t' rest => rw [resumeAfter, if_pos (.inl ht)]

theorem resumeAfter_to_semicolon {previous t : Token} (hprevious : previous.kind ≠ .semicolon)
    (ht : t.kind = .semicolon) (rest : List Token) : resumeAfter previous (t :: rest) = rest := by
  rw [resumeAfter, if_neg, resumeAfter_semicolon ht]
  rintro (hend | hbegin)
  · exact hprevious hend
  · obtain ⟨kind, lexeme, line⟩ := t
    cases ht
    cases hbegin

theorem Unended.standsInside {u : List Token} (h : Unended u) :
    ∀ t ∈ u.tail, standsInside t.kind = true := fun t ht ↦
  (standsInside_iff t).2 ⟨h.noSemicolon t (List.mem_of_mem_tail ht), h.others t ht⟩

theorem mem_tail_of_suffix {v u : List Token} (h : v <:+ u) : ∀ t ∈ v.tail, t ∈ u.tail := by
  obtain ⟨x, rfl⟩ := h
  intro t ht
  cases x with
  | nil => exact ht
  | cons a x => exact List.mem_append_right x (List.mem_of_mem_tail ht)

/-- Whatever token of them an error is found at, the others are passed. -/
theorem Unended.resume {u : List Token} (h : Unended u) {v : List Token} (hv : v ≠ [])
    (hsuffix : v <:+ u) (w : List Token) :
    ∃ last : Token, last.kind ≠ .semicolon ∧ resume (v ++ w) = resumeAfter last w := by
  cases v with
  | nil => exact absurd rfl hv
  | cons t v =>
    have ht : t.kind ≠ .semicolon := h.noSemicolon t (hsuffix.subset List.mem_cons_self)
    have hinside : ∀ t' ∈ v, Grammar.standsInside t'.kind = true := fun t' ht' ↦
      h.standsInside t' (mem_tail_of_suffix hsuffix t' ht')
    exact resumeAfter_inside hinside ht w

theorem Unended.bounded_semicolon {u : List Token} (h : Unended u) {t : Token}
    (ht : t.kind = .semicolon) (behind : List Token) : Bounded (u ++ [t]) behind := by
  intro v hv hsuffix
  obtain ⟨v', rfl, hv'⟩ := (List.suffix_concat_iff.1 hsuffix).resolve_left hv
  have hto : ∀ w, Grammar.resume (v' ++ t :: w) = w := by
    intro w
    by_cases hnil : v' = []
    · rw [hnil]
      exact resumeAfter_semicolon ht w
    · obtain ⟨last, hlast, hresume⟩ := h.resume hnil hv' (t :: w)
      rw [hresume]
      exact resumeAfter_to_semicolon hlast ht w
  refine ⟨hto [], ?_⟩
  rw [List.append_assoc]
  exact hto behind

theorem Unended.bounded_keyword {u : List Token} (h : Unended u) {k : Token}
    (hk : beginsStatement k = true) (behind : List Token) : Bounded u (k :: behind) := by
  intro v hv hsuffix
  obtain ⟨last, -, hend⟩ := h.resume hv hsuffix []
  obtain ⟨last', -, hnext⟩ := h.resume hv hsuffix (k :: behind)
  rw [List.append_nil] at hend
  refine ⟨hend, ?_⟩
  rw [hnext, resumeAfter, if_pos (.inr hk)]

/-! ### Errors within their statement -/

theorem isSimple_of_not_mem {kind : Token.Kind}
    (h : kind ∉ [.class_, .fun_, .for_, .if_, .while_, .else_, .leftBrace]) :
    isSimple kind = true ∧ kind ≠ .else_ := by
  cases kind <;> first | exact absurd (by decide) h | exact ⟨rfl, fun heq ↦ by cases heq⟩

/-- Such a declaration and nothing else is what may come. -/
theorem judged_declaration {c : Cursor} {t : Token} {rest : List Token} (hrest : c.rest = t :: rest)
    (hsimple : isSimple t.kind = true) {K : Language Token} (hK : Live K) :
    Judged False (L (part (simpleOf t.kind)) * K) c K (declaration c) :=
  judged_simple hrest hK (rules c.size) c.le_self hsimple

/-- No error is found behind the semicolon. -/
theorem Unended.contained_semicolon {u : List Token} (h : Unended u) {s : Token}
    (hs : s.kind = .semicolon) {c : Cursor} (hcursor : c.rest = u ++ [s]) {t : Token}
    {rest : List Token} (hrest : c.rest = t :: rest) (hsimple : isSimple t.kind = true) :
    Contained c (declaration c) := by
  have hjudged := judged_declaration hrest hsimple live_one
  rw [mul_one] at hjudged
  unfold Contained
  revert hjudged
  cases declaration c with
  | done value next shorter =>
    intro hjudged
    obtain ⟨w, hw, hto, -⟩ := hjudged.leads
    obtain ⟨v, t', hword, ht', hv, -⟩ :=
      exists_of_mem_simple hsimple (hto [] Language.nil_mem_one)
    have hsplit : u ++ s :: [] = v ++ t' :: next.rest := by
      rw [← hcursor, hw.rest, ← List.append_nil w, hword, List.append_assoc]
      rfl
    exact (eq_of_first_semicolon h.noSemicolon hv hs ht' hsplit).2.symm
  | failed d next notLonger =>
    intro hjudged
    obtain ⟨⟨w, hw, ⟨y, hy⟩, hnone⟩, -⟩ := hjudged.halts
    refine ⟨fun hnil ↦ ?_, ⟨w, hw.rest.symm⟩⟩
    -- Had the semicolon been read, nothing more would have to come.
    obtain ⟨v, t', hword, ht', hv, -⟩ := exists_of_mem_simple hsimple hy
    have hw' : w = u ++ [s] := by rw [← hcursor, hw.rest, hnil, List.append_nil]
    have hsplit : u ++ s :: y = v ++ t' :: [] := by
      rw [← hword, hw', List.append_assoc]
      rfl
    have hy' : y = [] := (eq_of_first_semicolon h.noSemicolon hv hs ht' hsplit).2
    rw [hy'] at hy
    exact hnone [] (by rw [Ahead, hnil]) hy

theorem leads_simple {c : Cursor} {K : Language Token} {t : Token} {rest : List Token}
    (hrest : c.rest = t :: rest) (hsimple : isSimple t.kind = true) :
    Leads (L (part .declaration) * K) c (L (part (simpleOf t.kind)) * K) c := by
  have hdeclaration := leads_declaration (K := K) hrest
  have hstatement := leads_statement (K := K) hrest
  obtain ⟨kind, lexeme, line⟩ := t
  cases kind with
  | var => exact hdeclaration
  | class_ | fun_ | for_ | if_ | while_ | leftBrace => cases hsimple
  | _ => exact hdeclaration.trans hstatement

theorem nil_mem_program : [] ∈ L (part .program) := by
  rw [L_part]
  exact Spells.stop

/-- A program that goes on with such a declaration. -/
theorem leads_program {c : Cursor} {t : Token} {rest : List Token} (hrest : c.rest = t :: rest)
    (hsimple : isSimple t.kind = true) :
    Leads (L (part .program)) c (L (part (simpleOf t.kind)) * L (part .program)) c := by
  have hmisses : Misses 1 c := by
    intro x hx hahead
    rw [(Language.mem_one x).1 hx, Ahead, hrest] at hahead
    cases hahead
  have hmore : Leads (L (part .program)) c (L (part .declaration) * L (part .program)) c := by
    have hmany := leads_more (e := part .declaration) hmisses
    rwa [mul_one, show L (many (part .declaration)) = L (part .program) from
      (L_part .program).symm] at hmany
  exact hmore.trans (leads_simple hrest hsimple)

/-- A word that such a declaration begins has a semicolon, and no statement begins before it. -/
theorem exists_of_mem_simple_mul {kind : Token.Kind} (hsimple : isSimple kind = true)
    {K : Language Token} {w : List Token} (h : w ∈ L (part (simpleOf kind)) * K) :
    ∃ v t rest, w = v ++ t :: rest ∧ t.kind = .semicolon ∧
      ∀ t ∈ v.tail, Grammar.standsInside t.kind = true := by
  obtain ⟨w', hw', rest, -, rfl⟩ := Language.mem_mul.1 h
  obtain ⟨v, t, rfl, ht, -, hinside⟩ := exists_of_mem_simple hsimple hw'
  exact ⟨v, t, rest, by simp, ht, hinside⟩

/-- A token that begins a statement does not come before the first semicolon of a word that such a
declaration begins. -/
theorem Unended.not_keyword {u : List Token} (h : Unended u) (hne : u ≠ []) {k s : Token}
    (hk : beginsStatement k = true) (hs : s.kind = .semicolon) {v w w' : List Token}
    (hv : ∀ t ∈ v.tail, Grammar.standsInside t.kind = true) : u ++ k :: w ≠ v ++ s :: w' := by
  intro heq
  have hks : k ≠ s := by
    rintro rfl
    obtain ⟨kind, lexeme, line⟩ := k
    cases hs
    cases hk
  rcases List.append_eq_append_iff.1 heq with ⟨as, rfl, htail⟩ | ⟨bs, rfl, htail⟩
  · cases as with
    | nil => exact hks (List.cons.inj htail).1
    | cons a as =>
      obtain ⟨rfl, -⟩ := List.cons.inj htail
      obtain ⟨x, u', rfl⟩ := List.exists_cons_of_ne_nil hne
      have hinside := hv k (List.mem_append_right u' List.mem_cons_self)
      rw [((standsInside_iff k).1 hinside).2] at hk
      cases hk
  · cases bs with
    | nil => exact hks (List.cons.inj htail).1.symm
    | cons b bs =>
      obtain ⟨rfl, -⟩ := List.cons.inj htail
      exact h.noSemicolon s (List.mem_append_right v List.mem_cons_self) hs

section

variable {u : List Token} (h : Unended u) {c : Cursor} {t : Token} {rest : List Token}
  (hrest : c.rest = t :: rest) (hsimple : isSimple t.kind = true)

include h hrest hsimple

/-- Without a semicolon there is an error, in one of the tokens if no program begins with them. -/
theorem Unended.contained_dead (hcursor : c.rest = u) (hdead : ¬Viable u) :
    Contained c (declaration c) ∧ ∀ pos, (recover (declaration c) pos).value = none := by
  have hjudged := judged_declaration hrest hsimple ⟨[], nil_mem_program⟩
  unfold Contained
  revert hjudged
  cases declaration c with
  | done value next shorter =>
    intro hjudged
    obtain ⟨w, hw, hto, -⟩ := hjudged.leads
    obtain ⟨v, s, rest', hword, hs, -⟩ := exists_of_mem_simple_mul hsimple (hto [] nil_mem_program)
    refine absurd hs (h.noSemicolon s ?_)
    rw [← hcursor, hw.rest, ← List.append_nil w, hword]
    simp
  | failed d next notLonger =>
    intro hjudged
    obtain ⟨w, hw, ⟨y, hy⟩, -⟩ := (leads_program hrest hsimple).halts hjudged.halts.1
    refine ⟨⟨fun hnil ↦ hdead ⟨y, ?_⟩, ⟨w, hw.rest.symm⟩⟩, fun _ ↦ rfl⟩
    rw [← hcursor, hw.rest, hnil, List.append_nil]
    exact hy

/-- If a program begins with the tokens, it is the keyword behind them that cannot go on. -/
theorem Unended.fails_at_keyword (hne : u ≠ []) {k : Token} {q : List Token}
    (hk : beginsStatement k = true) (hcursor : c.rest = u ++ k :: q) (hviable : Viable u) :
    ∃ d next notLonger cause, declaration c = .failed d next notLonger ∧ Passes c u next ∧
      next.rest = k :: q ∧ d = next.complaint cause ∧ cause ≠ .assignmentTarget := by
  have hjudged := judged_declaration hrest hsimple ⟨[], nil_mem_program⟩
  revert hjudged
  cases declaration c with
  | done value next shorter =>
    intro hjudged
    obtain ⟨w, hw, hto, -⟩ := hjudged.leads
    obtain ⟨v, s, rest', hword, hs, hv⟩ := exists_of_mem_simple_mul hsimple (hto [] nil_mem_program)
    have hsplit : u ++ k :: q = v ++ s :: (rest' ++ next.rest) := by
      rw [← hcursor, hw.rest, ← List.append_nil w, hword, List.append_assoc]
      rfl
    exact absurd hsplit (h.not_keyword hne hk hs hv)
  | failed d next notLonger =>
    intro hjudged
    obtain ⟨hhalts, cause, hcause, hd⟩ := hjudged.halts
    obtain ⟨w', hw', -, hnone⟩ := (leads_program hrest hsimple).halts hhalts
    obtain ⟨w, hw, ⟨y, hy⟩, -⟩ := hhalts
    obtain rfl : w' = w := List.append_cancel_right (hw'.rest.symm.trans hw.rest)
    have hsplit : u ++ k :: q = w' ++ next.rest := hcursor.symm.trans hw.rest
    have hpasses : w' = u ∧ next.rest = k :: q := by
      rcases List.append_eq_append_iff.1 hsplit with ⟨as, rfl, hnext⟩ | ⟨bs, rfl, hnext⟩
      · cases as with
        | nil => exact ⟨List.append_nil u, hnext.symm⟩
        | cons a as =>
          -- The keyword would have been read.
          obtain ⟨rfl, -⟩ := List.cons.inj hnext
          obtain ⟨v, s, rest', hword, hs, hv⟩ := exists_of_mem_simple_mul hsimple hy
          rw [List.append_assoc] at hword
          exact absurd hword (h.not_keyword hne hk hs hv)
      · cases bs with
        | nil => exact ⟨(List.append_nil w').symm, hnext⟩
        | cons b bs =>
          -- Reading would have halted before, though a program begins with the tokens.
          obtain ⟨x, hx⟩ := hviable
          rw [Sentence, List.append_assoc] at hx
          refine absurd hx (hnone _ ?_)
          rw [Ahead, hnext]
          rfl
    obtain ⟨rfl, hnext⟩ := hpasses
    exact ⟨d, next, notLonger, cause, rfl, hw, hnext, hd, hcause⟩

end

end Grammar

/-- The cursor where reading goes on if the next token is at fault. -/
def Cursor.resumed (c : Cursor) : Cursor := { c with rest := Grammar.resume c.rest }

namespace Reading

open Grammar

/-- A semicolon isolates what stands before it: tokens like those of a declaration without
statements inside, up to their semicolon, have no part in how anything else is read. They make at
most one statement, and their errors are those that are found in them alone. -/
theorem semicolon_isolates {P u Q : List Token} {s eof eof' : Token}
    (hP : ∀ t ∈ P, t.kind ≠ .endOfInput) (heof : eof.kind = .endOfInput)
    (hclean : (ofTokens (P ++ [eof])).diagnostics = []) (hu : Unended u)
    (hs : s.kind = .semicolon) (heof' : eof'.kind = .endOfInput) :
    ofTokens (P ++ ((u ++ [s]) ++ Q)) =
        ((ofTokens (P ++ [eof])).join (ofTokens ((u ++ [s]) ++ [eof']))).join (ofTokens Q) ∧
      (ofTokens ((u ++ [s]) ++ [eof'])).statements.length ≤ 1 := by
  have hstretch : ∀ t ∈ u ++ [s], t.kind ≠ .endOfInput := by
    intro t ht
    rcases List.mem_append.1 ht with ht | ht
    · exact hu.noEnd t ht
    · rw [List.mem_singleton.1 ht, hs]
      decide
  obtain ⟨t, rest, hrest, hsimple, helse⟩ : ∃ t rest, u ++ [s] = t :: rest ∧
      isSimple t.kind = true ∧ t.kind ≠ .else_ := by
    cases u with
    | nil => exact ⟨s, [], rfl, by rw [hs]; rfl, by rw [hs]; decide⟩
    | cons t u => exact ⟨t, u ++ [s], rfl, isSimple_of_not_mem (hu.first t rfl)⟩
  have hcontained := hu.contained_semicolon hs (c := ⟨u ++ [s], eof'.line, 0, []⟩) rfl hrest hsimple
  have hbounded := hu.bounded_semicolon hs (Cursor.ofTokens Q).rest
  refine ⟨ofTokens_between hP heof hclean hstretch hrest heof' hsimple helse hcontained hbounded,
    ?_⟩
  rw [ofTokens_contained hstretch heof' (by simp) hcontained hbounded]
  exact Option.length_toList_le

/-- `a;` -/
def namesOne : List Token := [⟨.identifier, "a", 1⟩, ⟨.semicolon, ";", 1⟩]

/-- `( b`, whose parenthesis is not closed. -/
def opensOne : List Token := [⟨.leftParen, "(", 2⟩, ⟨.identifier, "b", 2⟩]

/-- `else; print c;`, of which only the second statement is sound. -/
def printsOne : List Token :=
  [⟨.else_, "else", 3⟩, ⟨.semicolon, ";", 3⟩, ⟨.print, "print", 3⟩, ⟨.identifier, "c", 3⟩,
    ⟨.semicolon, ";", 3⟩, ⟨.endOfInput, "", 3⟩]

theorem unended_opensOne : Unended opensOne := by
  constructor <;> decide

theorem semicolon_isolates_opensOne :
    ofTokens (namesOne ++ ((opensOne ++ [⟨.semicolon, ";", 2⟩]) ++ printsOne)) =
        ((ofTokens (namesOne ++ [⟨.endOfInput, "", 1⟩])).join
          (ofTokens ((opensOne ++ [⟨.semicolon, ";", 2⟩]) ++ [⟨.endOfInput, "", 2⟩]))).join
          (ofTokens printsOne) ∧
      (ofTokens ((opensOne ++ [⟨.semicolon, ";", 2⟩]) ++ [⟨.endOfInput, "", 2⟩])).statements.length
        ≤ 1 :=
  semicolon_isolates (by decide) rfl (by decide +kernel) unended_opensOne rfl rfl

section

variable {P u Q : List Token} {k eof eof' : Token} (hP : ∀ t ∈ P, t.kind ≠ .endOfInput)
  (heof : eof.kind = .endOfInput) (hclean : (ofTokens (P ++ [eof])).diagnostics = [])
  (hu : Unended u) (hne : u ≠ []) (hk : beginsStatement k = true)

/-- A text that begins with such a token. -/
theorem ofTokens_keyword (hk : beginsStatement k = true) (Q : List Token) :
    Cursor.ofTokens (k :: Q) =
      ⟨k :: (Cursor.ofTokens Q).rest, (Cursor.ofTokens Q).endLine, 0, []⟩ := by
  have hone : ∀ t ∈ [k], t.kind ≠ .endOfInput := by
    intro t ht hend
    rw [List.mem_singleton.1 ht] at hend
    obtain ⟨kind, lexeme, line⟩ := k
    cases hend
    cases hk
  exact Cursor.ofTokens_append hone Q

include hP heof hclean hu hne hk

theorem ofTokens_dead (heof' : eof'.kind = .endOfInput) (hdead : ¬Viable u) :
    ofTokens (P ++ (u ++ k :: Q)) =
        ((ofTokens (P ++ [eof])).join (ofTokens (u ++ [eof']))).join (ofTokens (k :: Q)) ∧
      (ofTokens (u ++ [eof'])).statements = [] := by
  obtain ⟨t, rest, hrest⟩ := List.exists_cons_of_ne_nil hne
  obtain ⟨hsimple, helse⟩ := isSimple_of_not_mem (hu.first t (by rw [hrest]; rfl))
  obtain ⟨hcontained, hnone⟩ :=
    hu.contained_dead (c := ⟨u, eof'.line, 0, []⟩) hrest hsimple rfl hdead
  have hbounded : Bounded u (Cursor.ofTokens (k :: Q)).rest := by
    rw [ofTokens_keyword hk]
    exact hu.bounded_keyword hk _
  refine ⟨ofTokens_between hP heof hclean hu.noEnd hrest heof' hsimple helse hcontained hbounded,
    ?_⟩
  rw [ofTokens_contained hu.noEnd heof' (List.length_pos_of_ne_nil hne) hcontained hbounded, hnone]
  rfl

theorem ofTokens_viable (hviable : Viable u) :
    ∃ ds cause ids, (∀ d ∈ ds, d.isFault = false) ∧ cause ≠ .assignmentTarget ∧
      (ofTokens (P ++ (u ++ k :: Q))).statements = (ofTokens (P ++ [eof])).statements ++
        Stmt.shiftAll ⟨ids, 0⟩ (ofCursor (Cursor.ofTokens (k :: Q)).resumed).statements ∧
      (ofTokens (P ++ (u ++ k :: Q))).diagnostics = ds ++ .grammar k.line k.place cause ::
        (ofCursor (Cursor.ofTokens (k :: Q)).resumed).diagnostics := by
  obtain ⟨t, rest, hrest⟩ := List.exists_cons_of_ne_nil hne
  obtain ⟨hsimple, helse⟩ := isSimple_of_not_mem (hu.first t (by rw [hrest]; rfl))
  let c : Cursor := ⟨u ++ (Cursor.ofTokens (k :: Q)).rest, (Cursor.ofTokens (k :: Q)).endLine,
    (ofTokens (P ++ [eof])).idCount, []⟩
  have hrest' : c.rest = t :: (rest ++ (Cursor.ofTokens (k :: Q)).rest) :=
    congrArg (fun u ↦ u ++ _) hrest
  have hcursor : c.rest = u ++ k :: (Cursor.ofTokens Q).rest := by
    change u ++ (Cursor.ofTokens (k :: Q)).rest = _
    rw [ofTokens_keyword hk]
  have hpos : ¬c.size = 0 := by
    rw [Cursor.size, hrest']
    exact Nat.succ_ne_zero _
  obtain ⟨d, next, notLonger, cause, hfailed, hpasses, hnext, hd, hcause⟩ :=
    hu.fails_at_keyword hrest' hsimple hne hk hcursor hviable
  obtain ⟨ds, hds, hfaults⟩ := hpasses.reports
  have hresumed : (afterError next d).fresh = (Cursor.ofTokens (k :: Q)).resumed := by
    change Cursor.mk (resume next.rest) next.endLine 0 [] = _
    rw [hnext, hpasses.endLine, ofTokens_keyword hk]
    change Cursor.mk _ (Cursor.ofTokens (k :: Q)).endLine _ _ = _
    rw [ofTokens_keyword hk]
    rfl
  have hthere : ofCursor c =
      join ⟨[], ds ++ [.grammar k.line k.place cause], next.nextId⟩
        (ofCursor (Cursor.ofTokens (k :: Q)).resumed) := by
    have hstep : recover (declaration c) (Nat.pos_of_ne_zero hpos) =
        ⟨none, afterError next d, size_afterError notLonger (Nat.pos_of_ne_zero hpos)⟩ := by
      rw [hfailed]
      rfl
    rw [ofCursor_some hpos (congrArg Step.value hstep) (congrArg Step.next hstep),
      ofCursor_eq_join, hresumed]
    change join ⟨[], next.reports ++ [d], next.nextId⟩ _ = _
    rw [hds, hd, Cursor.complaint, hnext]
    rfl
  have hwhole := ofTokens_behind_cons hP heof hclean hu.noEnd hrest helse hthere
  refine ⟨ds, cause, next.nextId, hfaults, hcause, ?_, ?_⟩
  · rw [hwhole]
    rfl
  · rw [hwhole]
    exact List.append_assoc ds [_] _

end

/-- Tokens without their semicolon, before a token that begins a statement. If no program begins
with them, there is an error in one of them, and reading resumes at that token: the whole is read in
three parts. If a program does, it is that token where the error is found, and reading resumes
behind it, so that its statement is not read. -/
theorem unended_before_keyword {P u Q : List Token} {k eof eof' : Token}
    (hP : ∀ t ∈ P, t.kind ≠ .endOfInput) (heof : eof.kind = .endOfInput)
    (hclean : (ofTokens (P ++ [eof])).diagnostics = []) (hu : Unended u) (hne : u ≠ [])
    (hk : beginsStatement k = true) (heof' : eof'.kind = .endOfInput) :
    (¬Viable u →
      ofTokens (P ++ (u ++ k :: Q)) =
          ((ofTokens (P ++ [eof])).join (ofTokens (u ++ [eof']))).join (ofTokens (k :: Q)) ∧
        (ofTokens (u ++ [eof'])).statements = []) ∧
    (Viable u →
      ∃ ds cause ids, (∀ d ∈ ds, d.isFault = false) ∧ cause ≠ .assignmentTarget ∧
        (ofTokens (P ++ (u ++ k :: Q))).statements = (ofTokens (P ++ [eof])).statements ++
          Stmt.shiftAll ⟨ids, 0⟩ (ofCursor (Cursor.ofTokens (k :: Q)).resumed).statements ∧
        (ofTokens (P ++ (u ++ k :: Q))).diagnostics = ds ++ .grammar k.line k.place cause ::
          (ofCursor (Cursor.ofTokens (k :: Q)).resumed).diagnostics) :=
  ⟨ofTokens_dead hP heof hclean hu hne hk heof', ofTokens_viable hP heof hclean hu hne hk⟩

/-- `print nil`, without its semicolon. -/
def printsNil : List Token := [⟨.print, "print", 1⟩, ⟨.nil, "nil", 1⟩]

/-- `var x = nil; print x;` -/
def declaresOne : List Token :=
  [⟨.var, "var", 2⟩, ⟨.identifier, "x", 2⟩, ⟨.equal, "=", 2⟩, ⟨.nil, "nil", 2⟩,
    ⟨.semicolon, ";", 2⟩, ⟨.print, "print", 3⟩, ⟨.identifier, "x", 3⟩, ⟨.semicolon, ";", 3⟩,
    ⟨.endOfInput, "", 3⟩]

theorem length_shiftAll (δ : Shift) (ss : List Stmt) : (Stmt.shiftAll δ ss).length = ss.length := by
  induction ss with
  | nil => rfl
  | cons s ss ih => exact congrArg Nat.succ ih

theorem unended_printsNil : Unended printsNil := by
  constructor <;> decide

theorem unended_before_keyword_printsNil :
    (¬Viable printsNil →
      ofTokens ([] ++ (printsNil ++ declaresOne)) =
          ((ofTokens ([] ++ [⟨.endOfInput, "", 1⟩])).join
            (ofTokens (printsNil ++ [⟨.endOfInput, "", 1⟩]))).join (ofTokens declaresOne) ∧
        (ofTokens (printsNil ++ [⟨.endOfInput, "", 1⟩])).statements = []) ∧
    (Viable printsNil →
      ∃ ds cause ids, (∀ d ∈ ds, d.isFault = false) ∧ cause ≠ .assignmentTarget ∧
        (ofTokens ([] ++ (printsNil ++ declaresOne))).statements =
          (ofTokens ([] ++ [⟨.endOfInput, "", 1⟩])).statements ++
            Stmt.shiftAll ⟨ids, 0⟩ (ofCursor (Cursor.ofTokens declaresOne).resumed).statements ∧
        (ofTokens ([] ++ (printsNil ++ declaresOne))).diagnostics =
          ds ++ .grammar 2 (.token "var") cause ::
            (ofCursor (Cursor.ofTokens declaresOne).resumed).diagnostics) :=
  unended_before_keyword (by decide) rfl (by decide +kernel) unended_printsNil (by decide) rfl rfl

/-- The declaration behind `print nil` is lost, though it is sound and begins with a keyword. -/
theorem keyword_statement_lost :
    Unended printsNil ∧ printsNil ≠ [] ∧ (∀ t ∈ declaresOne.head?, beginsStatement t = true) ∧
      (ofTokens (printsNil ++ [⟨.endOfInput, "", 1⟩])).statements = [] ∧
      (ofTokens declaresOne).diagnostics = [] ∧
      ∀ ids, (ofTokens (printsNil ++ declaresOne)).statements ≠
        Stmt.shiftAll ⟨ids, 0⟩ (ofTokens declaresOne).statements := by
  refine ⟨unended_printsNil, by decide, by decide, ?_, by decide +kernel, fun ids heq ↦ ?_⟩
  · exact List.length_eq_zero_iff.1 (by decide +kernel)
  · have hlength := congrArg List.length heq
    rw [length_shiftAll] at hlength
    revert hlength
    decide +kernel

end Reading

end Lox
