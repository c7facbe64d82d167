import Lox.Proofs.Grammar.CompleteExpressions
import Lox.Proofs.Grammar.SoundStatements

/-!
Reading ends, whatever the tokens are. A cursor has a place among them that no rule takes back. The
loops of the reading go on in rounds: one that is completed ends at a later place than it began at,
and one that fails is the last, even if it has read nothing. Its error leaves the rules up to the
declaration around them, which goes on behind the token at fault; so every declaration gets on, and
a loop has no more rounds than there are tokens left.
-/

set_option autoImplicit false

namespace Lox

/-! ### Places -/

/-- The cursor is before the token with the number `k`, or behind the last one. No end of input lies
before it, and it stops at the next one. -/
structure Cursor.At (tokens : List Token) (k : Nat) (c : Cursor) : Prop where
  inside : k ≤ tokens.length
  passed : ∀ t ∈ tokens.take k, t.kind ≠ .endOfInput
  rest : c.rest = (tokens.drop k).takeWhile fun t ↦ t.kind ≠ .endOfInput

namespace Cursor

theorem at_ofTokens (tokens : List Token) : (Cursor.ofTokens tokens).At tokens 0 where
  inside := Nat.zero_le _
  passed _ h := nomatch h
  rest := rfl

namespace At

variable {tokens : List Token} {k : Nat} {c c' : Cursor}

/-- The cursor sees the token at its place, unless it is an end of input or there is none. -/
theorem head? (h : c.At tokens k) :
    c.rest.head? = tokens[k]?.filter fun t ↦ t.kind ≠ .endOfInput := by
  rw [h.rest, List.head?_takeWhile, List.head?_drop]

theorem ended (h : c.At tokens k) (hnone : c.rest = []) :
    ∀ t ∈ tokens[k]?, t.kind = .endOfInput := by
  intro t ht
  have hhead := h.head?
  rw [hnone, List.head?_nil, Option.mem_def.1 ht] at hhead
  by_contra hkind
  rw [Option.filter_some, if_pos (decide_eq_true hkind)] at hhead
  cases hhead

theorem skip {t : Token} {rest : List Token} (h : c.At tokens k) (hrest : c.rest = t :: rest) :
    c.skip.At tokens (k + 1) := by
  have hhead : some t = tokens[k]?.filter fun t ↦ t.kind ≠ .endOfInput := by
    rw [← h.head?, hrest, List.head?_cons]
  obtain ⟨htoken, hkind⟩ := Option.filter_eq_some_iff.1 hhead.symm
  obtain ⟨hless, -⟩ := List.getElem?_eq_some_iff.1 htoken
  refine ⟨hless, fun u hu ↦ ?_, ?_⟩
  · rw [List.take_add_one, htoken, List.mem_append] at hu
    rcases hu with hu | hu
    · exact h.passed u hu
    · rw [List.mem_singleton.1 hu]
      exact of_decide_eq_true hkind
  · have hdrop : tokens.drop k = t :: tokens.drop (k + 1) := by
      rw [List.drop_eq_getElem?_toList_append, htoken]
      rfl
    change c.rest.tail = _
    rw [h.rest, hdrop, List.takeWhile_cons, if_pos hkind, List.tail_cons]

theorem onward {w : List Token} (h : c.At tokens k) (hsplit : c.rest = w ++ c'.rest) :
    c'.At tokens (k + w.length) := by
  induction w generalizing k c with
  | nil => exact ⟨h.inside, h.passed, hsplit.symm.trans h.rest⟩
  | cons t w ih =>
    have hskip : c.skip.rest = w ++ c'.rest := congrArg List.tail hsplit
    have hlast := ih (h.skip hsplit) hskip
    rw [List.length_cons, Nat.add_comm w.length, ← Nat.add_assoc]
    exact hlast

end At

end Cursor

namespace Grammar

variable {tokens : List Token} {k : Nat} {c c' : Cursor}

theorem at_of_stuck (h : c.At tokens k) (hstuck : Stuck c c') :
    ∃ k', k + c.size = k' + c'.size ∧ c'.At tokens k' := by
  obtain ⟨w, hw⟩ := hstuck
  refine ⟨k + w.length, ?_, h.onward hw.split⟩
  have hlength := congrArg List.length hw.split
  rw [List.length_append] at hlength
  simp only [Cursor.size]
  omega

/-- A rule that has read a token is at a later place. -/
theorem later_of_stuck (h : c.At tokens k) (hstuck : Stuck c c') (less : c'.size < c.size) :
    ∃ k', k < k' ∧ c'.At tokens k' := by
  obtain ⟨k', hsize, hat⟩ := at_of_stuck h hstuck
  exact ⟨k', by omega, hat⟩

/-! ### Rounds of loops -/

/-- The loops of the reading. Those of operators and of suffixes have made an expression so far. -/
inductive Loop
  | program
  | block
  | methods
  | parameters
  | arguments
  | operators (k : Level) (left : Expr)
  | suffixes (target : Expr)

/-- After a comma there is another round, and without one this was the last. -/
def separated {α : Type} {size : Nat} (loop : Loop) (r : Reply size α) : Reply size (Option Loop) :=
  r.bind fun _ next shorter ↦
    if next.sees .comma then .done (some loop) next.skip (Cursor.skip_lt shorter)
    else .done none next shorter

theorem size_skip_of_head? {α : Type} {f : Token → Option α} {a : α}
    (h : c.rest.head?.bind f = some a) : c.skip.size < c.size := by
  obtain ⟨t, hhead, -⟩ := Option.bind_eq_some_iff.1 h
  obtain ⟨rest, hrest⟩ := List.head?_eq_some_iff.1 hhead
  exact Cursor.size_skip_of_cons hrest

/-- Where tokens are left there is one that recovery can skip. -/
theorem size_pos_of_left (h : ¬c.size = 0) : 0 < c.size := Nat.pos_of_ne_zero h

theorem size_pos_of_unclosed {kind : Token.Kind} (h : ¬(c.sees kind = true ∨ c.size = 0)) :
    0 < c.size :=
  Cursor.size_pos h

/-- One round from the head of a loop, unless the loop is over there. It answers with the loop that
goes on after it, if it was not the last round. -/
def Loop.round (n : Nat) : Loop → (c : Cursor) → c.size ≤ n → Option (Reply c.size (Option Loop))
  | .program, c, _ =>
    if h : c.size = 0 then none
    else
      let step := recover (declaration c) (size_pos_of_left h)
      some (.done (some .program) step.next step.shorter)
  | .block, c, within =>
    if stop : c.sees .rightBrace = true ∨ c.size = 0 then none
    else
      let step := recover (declarationWith (rules n) c within) (size_pos_of_unclosed stop)
      some (.done (some .block) step.next step.shorter)
  | .methods, c, within =>
    if c.sees .rightBrace = true ∨ c.size = 0 then none
    else some ((routine (rules n) .method c within).map fun _ ↦ some .methods)
  | .parameters, c, _ => some (separated .parameters (c.expectName .parameterName))
  | .arguments, c, _ => some (separated .arguments (expression c))
  | .operators k left, c, within =>
    match e : c.rest.head?.bind k.joiner with
    | none => none
    | some join =>
      some (((operandRule (whole n) k c.skip (c.skip_le within)).inside (size_skip_of_head? e)).map
        fun right ↦ some (.operators k (join left right)))
  | .suffixes target, c, within =>
    if call : c.sees .leftParen then
      some (((Grammar.arguments (whole n) c.skip (Cursor.skip_lt_of_le call within)).inside
        (Cursor.size_skip call)).map fun values ↦
          some (.suffixes (.call target values.2 values.1)))
    else if dot : c.sees .dot then
      some (((c.skip.expectName .propertyName).inside (Cursor.size_skip dot)).map fun name ↦
        some (.suffixes (.get target name)))
    else none

theorem stuck_separated {α : Type} {loop : Loop} {r : Reply c.size α}
    (h : r.Ends (fun _ ↦ Stuck c) (Stuck c)) :
    (separated loop r).Ends (fun _ ↦ Stuck c) (Stuck c) := by
  refine Reply.ends_bind h ?_
  intro _ next _ hnext
  split
  next hcomma =>
    obtain ⟨t, -, hrest⟩ := Cursor.sees_iff.1 hcomma
    exact hnext.trans (Parsed.token hrest).stuck
  next => exact hnext

theorem Sound.stuck {α : Type} [Tree α] {n : Nat} {derives : List Token → α → Prop} {r : Reply n α}
    (h : Sound derives c r) : r.Ends (fun _ ↦ Stuck c) (Stuck c) :=
  h.imp (fun _ _ hreads ↦ hreads.stuck) fun _ hstuck ↦ hstuck

theorem stuck_map_inside {α β : Type} {n : Nat} {m : Cursor} {r : Reply m.size α}
    {less : m.size < n} {f : α → β} (hm : Stuck c m) (h : r.Ends (fun _ ↦ Stuck m) (Stuck m)) :
    ((r.inside less).map f).Ends (fun _ ↦ Stuck c) (Stuck c) :=
  Reply.ends_map (Reply.ends_inside (h.imp (fun _ _ hlast ↦ hm.trans hlast) fun _ ↦ hm.trans))

theorem sound_operandRule {n : Nat} {expression : Below n Expr}
    (hexpression : ∀ c less, Sound (ExprSymbol.Derives .expression) c (expression c less))
    (k : Level) (c : Cursor) (within : c.size ≤ n) :
    Sound (ExprSymbol.Derives k.operand) c (operandRule expression k c within) := by
  have hunary : ∀ c within, Sound (ExprSymbol.Derives .unary) c (unary expression c within) :=
    fun c within ↦ sound_unary hexpression _ c within rfl
  have hfactor := sound_chain .factor hunary
  have hterm := sound_chain .term hfactor
  have hcomparison := sound_chain .comparison hterm
  have hequality := sound_chain .equality hcomparison
  have hconjunction := sound_chain .conjunction hequality
  cases k with
  | disjunction => exact hconjunction c within
  | conjunction => exact hequality c within
  | equality => exact hcomparison c within
  | comparison => exact hterm c within
  | term => exact hfactor c within
  | factor => exact hunary c within

/-- No round takes the cursor back. -/
theorem Loop.stuck_round {n : Nat} {loop : Loop} {within : c.size ≤ n}
    {reply : Reply c.size (Option Loop)} (hround : loop.round n c within = some reply) :
    reply.Ends (fun _ ↦ Stuck c) (Stuck c) := by
  have hwhole : ∀ c less, Sound (ExprSymbol.Derives .expression) c (whole n c less) :=
    fun c _ ↦ sound_expression c
  cases loop with
  | program =>
    simp only [Loop.round] at hround
    split at hround
    · cases hround
    · cases hround
      exact stuck_recover _ (sound_declarationWith (sound_rules c.size) c c.le_self)
  | block =>
    simp only [Loop.round] at hround
    split at hround
    · cases hround
    · cases hround
      exact stuck_recover _ (sound_declarationWith (sound_rules n) c within)
  | methods =>
    simp only [Loop.round] at hround
    split at hround
    · cases hround
    · cases hround
      exact Reply.ends_map (sound_routine (sound_rules n) .method c within).stuck
  | parameters =>
    cases hround
    exact stuck_separated (sound_expectName c _).stuck
  | arguments =>
    cases hround
    exact stuck_separated (sound_expression c).stuck
  | operators k left =>
    simp only [Loop.round] at hround
    split at hround
    next => cases hround
    next join hjoin =>
      cases hround
      obtain ⟨t, hhead, -⟩ := Option.bind_eq_some_iff.1 hjoin
      obtain ⟨rest, hrest⟩ : ∃ rest, c.rest = t :: rest := List.head?_eq_some_iff.1 hhead
      exact stuck_map_inside (Parsed.token hrest).stuck (sound_operandRule hwhole k c.skip _).stuck
  | suffixes target =>
    simp only [Loop.round] at hround
    split at hround
    next hcall =>
      cases hround
      obtain ⟨t, -, hrest⟩ := Cursor.sees_iff.1 hcall
      refine stuck_map_inside (Parsed.token hrest).stuck
        ((sound_arguments hwhole c.skip _).imp ?_ ?_)
      · rintro values last ⟨w, r, hvalues, -⟩
        exact hvalues.stuck
      · exact fun _ hstuck ↦ hstuck
    next =>
      split at hround
      next hdot =>
        cases hround
        obtain ⟨t, -, hrest⟩ := Cursor.sees_iff.1 hdot
        exact stuck_map_inside (Parsed.token hrest).stuck (sound_expectName c.skip _).stuck
      next => cases hround

/-! ### Loops as their rounds -/

/-- Where a rule leaves the tokens, and the error that it comes to there. -/
structure Ending where
  cause : Option Diagnostic
  next : Cursor

def ending {α : Type} {size : Nat} : Reply size α → Ending
  | .done _ next _ => ⟨none, next⟩
  | .failed cause next _ => ⟨some cause, next⟩

@[simp] theorem ending_map {α β : Type} {size : Nat} (f : α → β) (r : Reply size α) :
    ending (r.map f) = ending r := by
  cases r <;> rfl

@[simp] theorem ending_inside {α : Type} {size : Nat} {m : Cursor} (r : Reply m.size α)
    (less : m.size < size) : ending (r.inside less) = ending r := by
  cases r <;> rfl

/-- How the function of a loop ends that begins at the head of it. -/
def Loop.ending (n : Nat) : Loop → (c : Cursor) → c.size ≤ n → Ending
  | .program, c, _ => ⟨none, (declarations c).2⟩
  | .block, c, within => Grammar.ending (blockWith (rules n) c within)
  | .methods, c, within => Grammar.ending (Grammar.methods (rules n) c within)
  | .parameters, c, _ => Grammar.ending (names c)
  | .arguments, c, within =>
    Grammar.ending (expressions (whole (n + 1)) c (Nat.lt_succ_of_le within))
  | .operators k left, c, within =>
    Grammar.ending (chainFrom k.joiner (operandRule (whole n) k) left c within c.size.lt_succ_self)
  | .suffixes target, c, within =>
    Grammar.ending (suffixesFrom (whole n) target c within c.size.lt_succ_self)

/-- How the function of a loop ends after the last round: blocks and classes have a brace there. -/
def Loop.close : Loop → Cursor → Ending
  | .block, c => Grammar.ending (c.expect .rightBrace .blockClosing)
  | .methods, c => Grammar.ending (c.expect .rightBrace .classClosing)
  | _, c => ⟨none, c⟩

/-- How a loop ends after what its round has come to. -/
def Loop.after (n : Nat) (loop : Loop) {c : Cursor} (within : c.size ≤ n) :
    Option (Reply c.size (Option Loop)) → Ending
  | none => loop.close c
  | some (.done none next _) => loop.close next
  | some (.done (some again) next shorter) =>
    again.ending n next (Cursor.le_of_lt_of_le shorter within)
  | some (.failed cause next _) => ⟨some cause, next⟩

/-- The size that a chain is to be shorter than has no part in how it ends. -/
theorem ending_chainFrom {n size size' : Nat} (joiner : Joiner) (operand : UpTo n Expr) (N : Nat)
    (left : Expr) (c : Cursor) (within : c.size ≤ n) (less : c.size < size) (less' : c.size < size')
    (hN : c.size = N) :
    ending (chainFrom joiner operand left c within less) =
      ending (chainFrom joiner operand left c within less') := by
  induction N using Nat.strongRecOn generalizing c left with
  | ind N ih =>
    rw [chainFrom, chainFrom]
    split
    · rfl
    · cases operand c.skip (c.skip_le within) with
      | done right after shorter => exact ih _ (hN ▸ Cursor.lt_of_lt_skip shorter) _ after _ _ _ rfl
      | failed cause after notLonger => rfl

theorem ending_suffixesFrom {n size size' : Nat} (expression : Below n Expr) (N : Nat)
    (target : Expr) (c : Cursor) (within : c.size ≤ n) (less : c.size < size)
    (less' : c.size < size') (hN : c.size = N) :
    ending (suffixesFrom expression target c within less) =
      ending (suffixesFrom expression target c within less') := by
  induction N using Nat.strongRecOn generalizing c target with
  | ind N ih =>
    rw [suffixesFrom, suffixesFrom]
    split
    next hcall =>
      cases arguments expression c.skip (Cursor.skip_lt_of_le hcall within) with
      | done values after shorter =>
        exact ih _ (hN ▸ Cursor.lt_of_lt_skip shorter) _ after _ _ _ rfl
      | failed cause after notLonger => rfl
    next =>
      split
      · cases c.skip.expectName .propertyName with
        | done name after shorter =>
          exact ih _ (hN ▸ Cursor.lt_of_lt_skip shorter) _ after _ _ _ rfl
        | failed cause after notLonger => rfl
      · rfl

theorem Loop.ending_operators (n : Nat) (k : Level) (left : Expr) (c : Cursor)
    (within : c.size ≤ n) : (operators k left).ending n c within =
      (operators k left).after n within ((operators k left).round n c within) := by
  simp only [Loop.round]
  split
  next hnone =>
    rw [Loop.ending, chainFrom]
    simp only [hnone]
    rfl
  next join hjoin =>
    rw [Loop.ending, chainFrom]
    simp only [hjoin]
    cases operandRule (whole n) k c.skip (c.skip_le within) with
    | done right after shorter => exact ending_chainFrom _ _ _ _ after _ _ _ rfl
    | failed cause after notLonger => rfl

theorem Loop.ending_suffixes (n : Nat) (target : Expr) (c : Cursor) (within : c.size ≤ n) :
    (suffixes target).ending n c within =
      (suffixes target).after n within ((suffixes target).round n c within) := by
  simp only [Loop.round, Loop.ending]
  rw [suffixesFrom]
  split
  next hcall =>
    cases Grammar.arguments (whole n) c.skip (Cursor.skip_lt_of_le hcall within) with
    | done values after shorter => exact ending_suffixesFrom _ _ _ after _ _ _ rfl
    | failed cause after notLonger => rfl
  next =>
    split
    · cases c.skip.expectName .propertyName with
      | done name after shorter => exact ending_suffixesFrom _ _ _ after _ _ _ rfl
      | failed cause after notLonger => rfl
    · rfl

/-- A loop whose rounds are separated by commas. -/
theorem Loop.ending_separated {α β : Type} {n : Nat} {loop : Loop} (within : c.size ≤ n)
    {r : Reply c.size α} {more : (a : α) → (next : Cursor) → next.size < c.size → Reply c.size β}
    (hcomma : ∀ a next shorter, next.sees .comma = true → Grammar.ending (more a next shorter) =
      loop.ending n next.skip (Cursor.skip_le (Cursor.le_of_lt_of_le shorter within)))
    (hlast : ∀ a next shorter, ¬next.sees .comma = true →
      Grammar.ending (more a next shorter) = loop.close next) :
    Grammar.ending (r.bind more) = loop.after n within (some (separated loop r)) := by
  unfold separated
  cases r with
  | done a next shorter =>
    simp only [Reply.bind]
    split
    next h => exact hcomma a next shorter h
    next h => exact hlast a next shorter h
  | failed cause next notLonger => rfl

/-- The function of a loop goes one round and then does as it does from there. -/
theorem Loop.ending_eq (n : Nat) (loop : Loop) (c : Cursor) (within : c.size ≤ n) :
    loop.ending n c within = loop.after n within (loop.round n c within) := by
  cases loop with
  | program =>
    simp only [Loop.round]
    split
    next hnone => rw [Loop.ending, declarations_none (List.length_eq_zero_iff.1 hnone)]; rfl
    next hsome => rw [Loop.ending, declarations_some hsome]; rfl
  | block =>
    simp only [Loop.round, Loop.ending]
    rw [blockWith]
    split
    · exact ending_map _ _
    · simp only [ending_map, ending_inside]
      rfl
  | methods =>
    simp only [Loop.round, Loop.ending]
    rw [Grammar.methods]
    split
    · exact ending_map _ _
    · cases routine (rules n) .method c within with
      | done first next shorter =>
        simp only [Reply.bind, ending_map, ending_inside]
        rfl
      | failed cause next notLonger => rfl
  | parameters =>
    rw [Loop.ending, names]
    refine Loop.ending_separated within (fun first next _ hcomma ↦ ?_) fun first next _ hnone ↦ ?_
    · rw [if_pos hcomma, ending_map, ending_inside, Loop.ending]
    · rw [if_neg hnone]
      rfl
  | arguments =>
    rw [Loop.ending, expressions]
    refine Loop.ending_separated within (fun first next _ hcomma ↦ ?_) fun first next _ hnone ↦ ?_
    · rw [if_pos hcomma, ending_map, ending_inside, Loop.ending]
    · rw [if_neg hnone]
      rfl
  | operators k left => exact Loop.ending_operators n k left c within
  | suffixes target => exact Loop.ending_suffixes n target c within

/-- `i` rounds lead from the head of one loop to that of another. -/
inductive Loop.Rounds (n : Nat) : Nat → Loop → Cursor → Loop → Cursor → Prop
  | nothing {loop : Loop} {c : Cursor} : Rounds n 0 loop c loop c
  | another {i : Nat} {loop again last : Loop} {c next c' : Cursor} {within : c.size ≤ n}
    {shorter : next.size < c.size}
    (round : loop.round n c within = some (.done (some again) next shorter))
    (others : Rounds n i again next last c') : Rounds n (i + 1) loop c last c'

/-- No round comes after the one that begins here, if one does. -/
def Loop.Last (n : Nat) (loop : Loop) (c : Cursor) (within : c.size ≤ n) : Prop :=
  ∀ again next shorter, loop.round n c within ≠ some (.done (some again) next shorter)

/-- A round that began at the place `k`, with `size` tokens left, has got on. If it was completed it
is at a later place. If it failed it has not gone back, and what is tried after the error is at a
later place, unless nothing was left to begin with. -/
def GotOn (tokens : List Token) (k : Nat) {size : Nat} : Reply size (Option Loop) → Prop
  | .done _ next _ => ∃ k', k < k' ∧ next.At tokens k'
  | .failed cause next _ => (∃ k', k ≤ k' ∧ next.At tokens k') ∧
      (0 < size → ∃ k', k < k' ∧ (afterError next cause).At tokens k')

theorem Loop.gotOn_round {n : Nat} (h : c.At tokens k) {loop : Loop} {within : c.size ≤ n}
    {reply : Reply c.size (Option Loop)} (hround : loop.round n c within = some reply) :
    GotOn tokens k reply := by
  have hstuck := Loop.stuck_round hround
  cases reply with
  | done again next shorter => exact later_of_stuck h hstuck shorter
  | failed cause next notLonger =>
    obtain ⟨k', hsize, hat⟩ := at_of_stuck h hstuck
    refine ⟨⟨k', by omega, hat⟩, fun pos ↦ ?_⟩
    -- Even if no token has been read, the one at fault is dropped.
    obtain ⟨w, hw⟩ := parsed_afterError next cause
    exact later_of_stuck h (Stuck.trans hstuck hw.stuck) (size_afterError notLonger pos)

/-- The loop comes to a last round from the head at the place `k`, after no more rounds than tokens
read by them, and its function ends as that round does. -/
def Loop.ComesToLast (tokens : List Token) (k n : Nat) (loop : Loop) (c : Cursor)
    (within : c.size ≤ n) : Prop :=
  ∃ i k' last c', ∃ within' : c'.size ≤ n, Rounds n i loop c last c' ∧ k + i ≤ k' ∧
    c'.At tokens k' ∧ last.Last n c' within' ∧
    loop.ending n c within = last.after n within' (last.round n c' within')

theorem Loop.comesToLast {n : Nat} (N : Nat) (h : c.At tokens k) (loop : Loop)
    (within : c.size ≤ n) (hN : c.size = N) : loop.ComesToLast tokens k n c within := by
  induction N using Nat.strongRecOn generalizing k c loop with
  | ind N ih =>
    by_cases hlast : loop.Last n c within
    · exact ⟨0, k, loop, c, within, .nothing, Nat.le_refl _, h, hlast, loop.ending_eq n c within⟩
    · simp only [Loop.Last, not_forall, not_not] at hlast
      obtain ⟨again, next, shorter, hround⟩ := hlast
      obtain ⟨k₁, hless, hnext⟩ := Loop.gotOn_round h hround
      obtain ⟨i, k', last, c', within', hrounds, hle, hat, hlast, hending⟩ :=
        ih _ (hN ▸ shorter) hnext again (Cursor.le_of_lt_of_le shorter within) rfl
      refine ⟨i + 1, k', last, c', within', .another hround hrounds, by omega, hat, hlast, ?_⟩
      rw [loop.ending_eq, hround, ← hending]
      rfl

/-- Reading comes to an end of input or behind the last token, whatever the tokens are. A cursor
sees the token at its place and no other. A declaration that is not at the end takes it to a later place,
sound or not, and so does every round of a loop, with what is dropped after it if it fails. Every
loop comes to a last round. -/
theorem reading_ends (tokens : List Token) :
    (∃ k, (declarations (Cursor.ofTokens tokens)).2.At tokens k ∧
      ∀ t ∈ tokens[k]?, t.kind = .endOfInput) ∧
    ∀ n k c, c.At tokens k → ∀ within : c.size ≤ n,
      (c.rest.head? = tokens[k]?.filter fun t ↦ t.kind ≠ .endOfInput) ∧
      (∀ pos : 0 < c.size, ∃ k', k < k' ∧
        (recover (declarationWith (rules n) c within) pos).next.At tokens k') ∧
      ∀ loop : Loop,
        (∀ reply, loop.round n c within = some reply → GotOn tokens k reply) ∧
        loop.ComesToLast tokens k n c within := by
  constructor
  · obtain ⟨hreads, hnone⟩ := reads_declarations _ (Cursor.ofTokens tokens) rfl
    obtain ⟨k, -, hat⟩ := at_of_stuck (Cursor.at_ofTokens tokens) hreads.stuck
    exact ⟨k, hat, hat.ended hnone⟩
  · intro n k c h within
    refine ⟨h.head?, fun pos ↦ ?_, fun loop ↦ ⟨fun reply ↦ Loop.gotOn_round h, ?_⟩⟩
    · have hstuck := stuck_recover pos (sound_declarationWith (sound_rules n) c within)
      exact later_of_stuck h hstuck (recover _ pos).shorter
    · exact Loop.comesToLast _ h loop within rfl

/-- `class A { + }`, an end of input, and a semicolon behind it. -/
def plusInClass : List Token :=
  [⟨.class_, "class", 1⟩, ⟨.identifier, "A", 1⟩, ⟨.leftBrace, "\x7b", 1⟩, ⟨.plus, "+", 1⟩,
    ⟨.rightBrace, "\x7d", 1⟩, ⟨.endOfInput, "", 1⟩, ⟨.semicolon, ";", 2⟩]

/-- At the plus sign, where a method is to begin. -/
def beforePlus : Cursor := (Cursor.ofTokens plusInClass).skip.skip.skip

theorem at_beforePlus : beforePlus.At plusInClass 3 := by
  have hclass := (Cursor.at_ofTokens plusInClass).skip rfl
  have hname := hclass.skip rfl
  exact hname.skip rfl

/-- The first method fails at its first token, and what is tried after it is behind the plus
sign. -/
theorem reading_ends_plusInClass :
    (∃ k, (declarations (Cursor.ofTokens plusInClass)).2.At plusInClass k ∧
      ∀ t ∈ plusInClass[k]?, t.kind = .endOfInput) ∧
    beforePlus.At plusInClass 3 ∧
    ∃ cause notLonger,
      Loop.methods.round 2 beforePlus (by decide) = some (.failed cause beforePlus notLonger) ∧
      ∃ k', 3 < k' ∧ (afterError beforePlus cause).At plusInClass k' := by
  obtain ⟨hend, hplaces⟩ := reading_ends plusInClass
  obtain ⟨-, -, hloops⟩ := hplaces 2 3 beforePlus at_beforePlus (by decide)
  obtain ⟨-, hbehind⟩ := (hloops .methods).1 (.failed _ beforePlus beforePlus.le_self) rfl
  exact ⟨hend, at_beforePlus, _, _, rfl, hbehind (by decide)⟩

end Grammar

end Lox
