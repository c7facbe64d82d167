import Lox.Proofs.FirstFault.Statements
import Lox.Proofs.Grammar.Reading

/-!
The first fault of a program lies in the first token with which no program goes on. Everything
before that token begins a sentence of the relaxed grammar, and with it there is no such sentence;
if the tokens end there, they are no sentence themselves. A text in which no fault is found is a
sentence.
-/

set_option autoImplicit false

namespace Lox

namespace Grammar

open Ebnf

theorem judged_declarations (N : Nat) (c : Cursor) (hN : c.size = N) :
    Leads (L (many (part .declaration)) * 1) c 1 (declarations c).2 ∨
      Spoilt (L (many (part .declaration)) * 1) c (declarations c).2 := by
  have hlater : ElseClosed (L (many (part .declaration)) * 1) := by
    refine (Behind.many ⟨live_one, ?_⟩ ?_).elseClosed
    · rintro x hx t u rfl
      cases (Language.mem_one _).1 hx
    · refine behind_of_begins (live_part ?_) ((live_many _).mul live_one) rfl (by decide)
      rw [relaxed, L_add]
      exact live_statement.right _
  induction N using Nat.strongRecOn generalizing c with
  | ind N ih =>
    by_cases hnone : c.size = 0
    · rw [declarations_none (List.length_eq_zero_iff.1 hnone)]
      exact .inl (leads_last (misses_declaration (.inr hnone)))
    rw [declarations_some hnone]
    have hmisses : Misses 1 c := by
      intro x hx hahead
      rw [(Language.mem_one x).1 hx] at hahead
      exact hnone (List.length_eq_zero_iff.2 (List.head?_eq_none_iff.1 hahead.symm))
    have hfirst : Judged True (L (part .declaration) * (L (many (part .declaration)) * 1)) c
        (L (many (part .declaration)) * 1) (declaration c) :=
      judged_declarationWith (judged_rules c.size) hlater c.le_self
    have hshorter := (recover (declaration c) (Nat.pos_of_ne_zero hnone)).shorter
    have hothers := ih _ (Nat.lt_of_lt_of_eq hshorter hN) _ rfl
    rcases judged_recover hfirst (Nat.pos_of_ne_zero hnone) with hleads | hspoilt
    · rcases hothers with hothers | hothers
      · exact .inl ((leads_more hmisses).trans (hleads.trans hothers))
      · exact .inr ((leads_more hmisses).spoilt (hleads.spoilt hothers))
    · obtain ⟨ds, hds⟩ := hothers.elim Leads.reports Spoilt.reports
      exact .inr ((leads_more hmisses).spoilt (hspoilt.later hds))

/-- No fault is reported while a word is read. -/
theorem Passes.filter_reports {c next : Cursor} {w : List Token} (h : Passes c w next)
    (hnone : c.reports = []) : next.reports.filter Diagnostic.isFault = [] := by
  obtain ⟨ds, hds, hclean⟩ := h.reports
  rw [hds, hnone, List.nil_append]
  refine List.filter_eq_nil_iff.2 fun d hd ↦ ?_
  rw [hclean d hd]
  exact Bool.false_ne_true

/-- A complaint behind a word is about the token there, or about the end of input. -/
theorem Passes.complaint {c next : Cursor} {w : List Token} (h : Passes c w next) {eof : Token}
    (heof : eof.kind = .endOfInput) (hline : c.endLine = eof.line) (cause : GrammarError) :
    ∃ t, (c.rest ++ [eof])[w.length]? = some t ∧
      next.complaint cause = .grammar t.line t.place cause := by
  rw [h.rest]
  cases hrest : next.rest with
  | nil =>
    refine ⟨eof, by simp, ?_⟩
    rw [Cursor.complaint, hrest, h.endLine, hline, Token.place, if_pos heof]
  | cons t rest =>
    refine ⟨t, by simp, ?_⟩
    rw [Cursor.complaint, hrest]

/-- At a position the tokens die: those before it begin a sentence, and those up to it do not; if
there is none at it, those before it are not a sentence. -/
structure DiesAt (tokens : List Token) (i : Nat) : Prop where
  within : i ≤ tokens.length
  viable : Viable (tokens.take i)
  dead : i < tokens.length → ¬Viable (tokens.take (i + 1))
  incomplete : i = tokens.length → ¬Sentence tokens

theorem Viable.of_append {w w' : List Token} (h : Viable (w ++ w')) : Viable w := by
  obtain ⟨x, hx⟩ := h
  exact ⟨w' ++ x, by rwa [← List.append_assoc]⟩

/-- They die only once: what begins no sentence begins none with more tokens behind it. -/
theorem DiesAt.not_lt {tokens : List Token} {i j : Nat} (hi : DiesAt tokens i)
    (hj : DiesAt tokens j) : ¬i < j := by
  intro hlt
  apply hi.dead (Nat.lt_of_lt_of_le hlt hj.within)
  have hsplit :
      tokens.take j = tokens.take (i + 1) ++ (tokens.drop (i + 1)).take (j - (i + 1)) := by
    rw [← List.take_add, Nat.add_sub_cancel' hlt]
  exact (hsplit ▸ hj.viable).of_append

theorem DiesAt.unique {tokens : List Token} {i j : Nat} (hi : DiesAt tokens i)
    (hj : DiesAt tokens j) : i = j :=
  Nat.le_antisymm (Nat.not_lt.1 (hj.not_lt hi)) (Nat.not_lt.1 (hi.not_lt hj))

/-- Where reading halts, the tokens die. -/
theorem Halts.diesAt {c m : Cursor} (h : Halts (L (part .program)) c m) :
    ∃ w, Passes c w m ∧ DiesAt c.rest w.length := by
  obtain ⟨w, hw, ⟨y, hy⟩, hnone⟩ := h
  have htake : c.rest.take w.length = w := by rw [hw.rest, List.take_left]
  refine ⟨w, hw, ?_, ?_, ?_, ?_⟩
  · rw [hw.rest, List.length_append]
    exact Nat.le_add_right _ _
  · rw [htake]
    exact ⟨y, hy⟩
  · rintro hlt ⟨x, hx⟩
    obtain ⟨t, rest, hrest⟩ : ∃ t rest, m.rest = t :: rest := by
      refine List.exists_cons_of_ne_nil fun hnil ↦ ?_
      rw [hw.rest, hnil, List.append_nil] at hlt
      exact Nat.lt_irrefl _ hlt
    rw [hw.rest, hrest, List.take_length_add_append] at hx
    refine hnone (t :: x) (by rw [Ahead, hrest]; rfl) ?_
    rw [List.append_assoc] at hx
    exact hx
  · intro heq hsentence
    have hnil : m.rest = [] := by
      rw [hw.rest, List.length_append] at heq
      exact List.length_eq_zero_iff.1 (by omega)
    refine hnone [] (by rw [Ahead, hnil]) ?_
    rw [Sentence, hw.rest, hnil] at hsentence
    exact hsentence

end Grammar

namespace Reading

open Grammar Ebnf

/-- The first fault that is reported lies in the token at which the tokens die, or in the end of
input; and tokens in which no fault is reported are a sentence. An invalid target is not a fault
in this sense, as any expression may stand before an equals sign in the relaxed grammar. -/
theorem first_fault_at_first_dead_token {tokens : List Token} {eof : Token}
    (htokens : ∀ t ∈ tokens, t.kind ≠ .endOfInput) (heof : eof.kind = .endOfInput) :
    (∀ d, ((Reading.ofTokens (tokens ++ [eof])).diagnostics.filter Diagnostic.isFault).head? =
        some d →
      ∃ i t cause, (tokens ++ [eof])[i]? = some t ∧ d = .grammar t.line t.place cause ∧
        DiesAt tokens i) ∧
    ((Reading.ofTokens (tokens ++ [eof])).diagnostics.filter Diagnostic.isFault = [] →
      Sentence tokens) := by
  have hstart : Cursor.ofTokens (tokens ++ [eof]) = ⟨tokens, eof.line, 0, []⟩ := by
    rw [Cursor.ofTokens_append htokens]
    simp [Cursor.ofTokens, heof]
  have hread := judged_declarations _ (Cursor.ofTokens (tokens ++ [eof])) rfl
  have hend := (reads_declarations _ (Cursor.ofTokens (tokens ++ [eof])) rfl).2
  rw [mul_one, show L (many (part .declaration)) = L (part .program) from (L_part .program).symm]
    at hread
  change
    (∀ d, ((declarations (Cursor.ofTokens (tokens ++ [eof]))).2.reports.filter _).head? = _ → _) ∧
    ((declarations (Cursor.ofTokens (tokens ++ [eof]))).2.reports.filter _ = [] → _)
  rw [hstart] at hread hend ⊢
  rcases hread with ⟨w, hw, hto, -⟩ | ⟨m, cause, hhalts, hcause, ds, hds⟩
  · rw [hw.filter_reports rfl]
    refine ⟨fun d hd ↦ (Option.some_ne_none d hd.symm).elim, fun _ ↦ ?_⟩
    have htokens : tokens = w ++ [] := hend ▸ hw.rest
    rw [Sentence, htokens]
    exact hto [] Language.nil_mem_one
  · obtain ⟨w, hw, hdies⟩ := hhalts.diesAt
    have hfault := (complaint_isFault m cause).2 hcause
    rw [hds, List.filter_append, hw.filter_reports rfl, List.filter_cons_of_pos hfault]
    refine ⟨fun d hd ↦ ?_, fun hnone ↦ (List.cons_ne_nil _ _ hnone).elim⟩
    cases hd
    obtain ⟨t, ht, hcomplaint⟩ := hw.complaint heof rfl cause
    exact ⟨w.length, t, cause, ht, hcomplaint, hdies⟩

/-- In `nil = nil; print ;` the target is invalid, but it is the last semicolon that cannot
follow. -/
def printsNothing : List Token :=
  [⟨.nil, "nil", 1⟩, ⟨.equal, "=", 1⟩, ⟨.nil, "nil", 1⟩, ⟨.semicolon, ";", 1⟩,
    ⟨.print, "print", 1⟩, ⟨.semicolon, ";", 2⟩]

theorem first_fault_printsNothing :
    ∃ i t cause, (printsNothing ++ [⟨.endOfInput, "", 2⟩])[i]? = some t ∧
      Diagnostic.grammar 2 (.token ";") .expression = .grammar t.line t.place cause ∧
      DiesAt printsNothing i :=
  (first_fault_at_first_dead_token (by decide) rfl).1 _ (by decide +kernel)

end Reading

end Lox
