import Lox.Grammar.Reply
import Lox.Proofs.Grammar.Trees

/-!
What a rule of the parser does between two cursors: it reads a word, draws identities and may
report errors. Such stretches are put one behind the other, and what is known of each is then
known of the whole. A rule is described by the stretch it has read when it answers; when it fails
nothing is known but that it has not gone back.
-/

set_option autoImplicit false

namespace Lox

variable {α β : Type}

/-- The reply is an answer with `good`, or a failure with `bad`. -/
def Reply.Ends {n : Nat} (good : α → Cursor → Prop) (bad : Cursor → Prop) : Reply n α → Prop
  | .done value next _ => good value next
  | .failed _ next _ => bad next

namespace Reply

variable {n : Nat} {good : α → Cursor → Prop} {bad : Cursor → Prop}

theorem Ends.imp {r : Reply n α} {good' : α → Cursor → Prop} {bad' : Cursor → Prop}
    (h : r.Ends good bad) (hgood : ∀ a c, good a c → good' a c) (hbad : ∀ c, bad c → bad' c) :
    r.Ends good' bad' := by
  cases r with
  | done value next shorter => exact hgood _ _ h
  | failed cause next notLonger => exact hbad _ h

theorem ends_bind {good' : β → Cursor → Prop} {r : Reply n α}
    {next : (a : α) → (after : Cursor) → after.size < n → Reply n β} (h : r.Ends good bad)
    (hnext : ∀ a after less, good a after → (next a after less).Ends good' bad) :
    (r.bind next).Ends good' bad := by
  cases r with
  | done value after shorter => exact hnext _ _ _ h
  | failed cause after notLonger => exact h

theorem ends_andThen {c : Cursor} {good' : β → Cursor → Prop} {r : Reply c.size α}
    {less : c.size < n}
    {next : (a : α) → (after : Cursor) → after.size < c.size → after.size < n → Reply n β}
    (h : r.Ends good bad)
    (hnext : ∀ a after shorter less, good a after → (next a after shorter less).Ends good' bad) :
    (r.andThen less next).Ends good' bad := by
  cases r with
  | done value after shorter => exact hnext _ _ _ _ h
  | failed cause after notLonger => exact h

theorem ends_inside {c : Cursor} {r : Reply c.size α} {less : c.size < n} (h : r.Ends good bad) :
    (r.inside less).Ends good bad := by
  cases r <;> exact h

theorem ends_map {f : α → β} {good : β → Cursor → Prop} {r : Reply n α}
    (h : r.Ends (fun a c ↦ good (f a) c) bad) : (r.map f).Ends good bad := by
  cases r <;> exact h

end Reply

namespace Cursor

theorem sees_iff {c : Cursor} {kind : Token.Kind} :
    c.sees kind = true ↔ ∃ t, t.kind = kind ∧ c.rest = t :: c.skip.rest := by
  unfold sees skip
  cases c.rest with
  | nil => simp
  | cons t rest => simp

/-- No identifier ahead is a word that stands for something else. -/
def Plain (c : Cursor) : Prop := ∀ t ∈ c.rest, t.kind = .identifier → t.lexeme ∉ keywordNames

end Cursor

namespace Grammar

open Lox.Grammar.Tree (Regular)

/-! ### Stretches -/

/-- A stretch on which the word `w` is read and `ids` are drawn, and maybe others. If no error is
reported on it `derived` holds, and `regular` if all names ahead were plain. -/
structure Parsed (c : Cursor) (w : List Token) (c' : Cursor) (ids : List NodeId)
    (derived regular : Prop) : Prop where
  split : c.rest = w ++ c'.rest
  reports : c.reports.length ≤ c'.reports.length
  drawn : c.nextId ≤ c'.nextId
  range : ∀ id ∈ ids, c.nextId ≤ id ∧ id < c'.nextId
  nodup : ids.Nodup
  derived : c'.reports.length = c.reports.length → derived
  regular : c.Plain → regular

/-- Nothing but that the second cursor is not behind the first one. -/
def Stuck (c c' : Cursor) : Prop := ∃ w, Parsed c w c' [] True True

namespace Parsed

variable {c m c' : Cursor} {w w' : List Token} {ids ids' : List NodeId} {derived derived' : Prop}
  {regular regular' : Prop}

theorem nothing (c : Cursor) : Parsed c [] c [] True True where
  split := rfl
  reports := Nat.le_refl _
  drawn := Nat.le_refl _
  range _ h := nomatch h
  nodup := List.nodup_nil
  derived _ := trivial
  regular _ := trivial

theorem trans (h : Parsed c w m ids derived regular)
    (h' : Parsed m w' c' ids' derived' regular') :
    Parsed c (w ++ w') c' (ids ++ ids') (derived ∧ derived') (regular ∧ regular') := by
  have hreports := h.reports
  have hreports' := h'.reports
  have hdrawn := h.drawn
  have hdrawn' := h'.drawn
  refine ⟨by rw [h.split, h'.split, List.append_assoc], Nat.le_trans hreports hreports',
    Nat.le_trans hdrawn hdrawn', fun id hid ↦ ?_, ?_,
    fun hclean ↦ ⟨h.derived (by omega), h'.derived (by omega)⟩,
    fun hplain ↦ ⟨h.regular hplain, h'.regular fun t ht ↦ ?_⟩⟩
  · rcases List.mem_append.1 hid with hid | hid
    · obtain ⟨hleast, hless⟩ := h.range id hid
      exact ⟨hleast, Nat.lt_of_lt_of_le hless hdrawn'⟩
    · obtain ⟨hleast, hless⟩ := h'.range id hid
      exact ⟨Nat.le_trans hdrawn hleast, hless⟩
  · refine List.nodup_append.2 ⟨h.nodup, h'.nodup, fun a ha b hb ↦ ?_⟩
    exact Nat.ne_of_lt (Nat.lt_of_lt_of_le (h.range a ha).2 (h'.range b hb).1)
  · exact hplain t (h.split ▸ List.mem_append_right _ ht)

/-- Of the identities drawn some may be dropped, and the others come in any order. -/
theorem imp (h : Parsed c w c' ids derived regular) (hids : ids'.Subperm ids)
    (hderived : derived → derived') (hregular : regular → regular') :
    Parsed c w c' ids' derived' regular' := by
  obtain ⟨l, hperm, hsub⟩ := hids
  exact ⟨h.split, h.reports, h.drawn, fun id hid ↦ h.range id (hsub.subset (hperm.mem_iff.2 hid)),
    hperm.nodup_iff.1 (h.nodup.sublist hsub), fun hclean ↦ hderived (h.derived hclean),
    fun hplain ↦ hregular (h.regular hplain)⟩

theorem stuck (h : Parsed c w c' ids derived regular) : Stuck c c' :=
  ⟨w, h.imp (List.nil_subperm) (fun _ ↦ trivial) fun _ ↦ trivial⟩

/-- A token is read. -/
theorem token {t : Token} {rest : List Token} (h : c.rest = t :: rest) :
    Parsed c [t] c.skip [] True (Regular t) where
  split := by simp [Cursor.skip, h]
  reports := Nat.le_refl _
  drawn := Nat.le_refl _
  range _ h := nomatch h
  nodup := List.nodup_nil
  derived _ := trivial
  regular hplain := hplain t (h ▸ List.mem_cons_self ..)

theorem draw (c : Cursor) : Parsed c [] c.draw [c.nextId] True True where
  split := rfl
  reports := Nat.le_refl _
  drawn := Nat.le_succ _
  range id hid := by
    rw [List.mem_singleton.1 hid]
    exact ⟨Nat.le_refl _, Nat.lt_succ_self _⟩
  nodup := List.nodup_cons.2 ⟨List.not_mem_nil, List.nodup_nil⟩
  derived _ := trivial
  regular _ := trivial

/-- After a report nothing needs to have been derived. -/
theorem report (c : Cursor) (d : Diagnostic) : Parsed c [] (c.report d) [] False True where
  split := rfl
  reports := by simp [Cursor.report]
  drawn := Nat.le_refl _
  range _ h := nomatch h
  nodup := List.nodup_nil
  derived hclean := by simp [Cursor.report] at hclean
  regular _ := trivial

end Parsed

theorem Stuck.refl (c : Cursor) : Stuck c c := (Parsed.nothing c).stuck

theorem Stuck.trans {c m c' : Cursor} (h : Stuck c m) (h' : Stuck m c') : Stuck c c' := by
  obtain ⟨w, hw⟩ := h
  obtain ⟨w', hw'⟩ := h'
  exact (hw.trans hw').stuck

/-! ### Rules -/

variable [Tree α]

/-- A stretch on which a tree is read that has a derivation. -/
def Reads (derives : List Token → α → Prop) (c : Cursor) (a : α) (c' : Cursor) : Prop :=
  ∃ w, Parsed c w c' (Tree.ids a) (derives w (Tree.unnumbered a)) (Regular a)

theorem Reads.stuck {derives : List Token → α → Prop} {c c' : Cursor} {a : α}
    (h : Reads derives c a c') : Stuck c c' := by
  obtain ⟨w, hw⟩ := h
  exact hw.stuck

/-- The reply of a rule that begins at a cursor and whose answers have derivations. -/
def Sound {n : Nat} (derives : List Token → α → Prop) (c : Cursor) (r : Reply n α) : Prop :=
  r.Ends (Reads derives c) (Stuck c)

variable {n : Nat} {derives : List Token → α → Prop} {c : Cursor} {good : β → Cursor → Prop}

theorem sound_bind {r : Reply n α}
    {next : (a : α) → (after : Cursor) → after.size < n → Reply n β} (h : Sound derives c r)
    (hnext : ∀ a after less, Reads derives c a after →
      (next a after less).Ends good (Stuck after)) :
    (r.bind next).Ends good (Stuck c) :=
  Reply.ends_bind h fun a after less ha ↦
    (hnext a after less ha).imp (fun _ _ hgood ↦ hgood) fun _ hstuck ↦ ha.stuck.trans hstuck

theorem sound_andThen {r : Reply c.size α} {less : c.size < n}
    {next : (a : α) → (after : Cursor) → after.size < c.size → after.size < n → Reply n β}
    (h : Sound derives c r)
    (hnext : ∀ a after shorter less, Reads derives c a after →
      (next a after shorter less).Ends good (Stuck after)) :
    (r.andThen less next).Ends good (Stuck c) :=
  Reply.ends_andThen h fun a after shorter less ha ↦
    (hnext a after shorter less ha).imp (fun _ _ hgood ↦ hgood)
      fun _ hstuck ↦ ha.stuck.trans hstuck

/-- The last part of a rule. -/
theorem sound_last {r : Reply c.size α} {less : c.size < n} {f : α → β}
    (h : Sound derives c r) (hlast : ∀ a after, Reads derives c a after → good (f a) after) :
    ((r.inside less).map f).Ends good (Stuck c) :=
  Reply.ends_map (Reply.ends_inside (h.imp hlast fun _ hstuck ↦ hstuck))

theorem sound_map {r : Reply n α} {f : α → β} (h : Sound derives c r)
    (hlast : ∀ a after, Reads derives c a after → good (f a) after) :
    (r.map f).Ends good (Stuck c) :=
  Reply.ends_map (h.imp hlast fun _ hstuck ↦ hstuck)

/-- One token of a kind. -/
def OneToken (kind : Token.Kind) (w : List Token) (t : Token) : Prop := w = [t] ∧ t.kind = kind

/-- One identifier, as a name. -/
def OneName (w : List Token) (n : Name) : Prop := ∃ t, w = [t] ∧ t.kind = .identifier ∧ n = nameOf t

omit [Tree α] in
theorem ends_fail {good : α → Cursor → Prop} (c : Cursor) (cause : GrammarError) :
    (c.fail cause : Reply c.size α).Ends good (Stuck c) :=
  Stuck.refl c

theorem ends_expect {good : Token → Cursor → Prop} {c : Cursor} {kind : Token.Kind}
    (h : ∀ t rest, c.rest = t :: rest → t.kind = kind → good t c.skip) (cause : GrammarError) :
    (c.expect kind cause).Ends good (Stuck c) := by
  unfold Cursor.expect
  split
  · exact ends_fail c cause
  next t rest e =>
    split
    next hkind => exact h t rest e hkind
    next => exact ends_fail c cause

theorem sound_expect (c : Cursor) (kind : Token.Kind) (cause : GrammarError) :
    Sound (OneToken kind) c (c.expect kind cause) :=
  ends_expect (fun t _ hrest hkind ↦ ⟨[t], (Parsed.token hrest).imp (List.Subperm.refl _)
    (fun _ ↦ ⟨rfl, hkind⟩) fun h ↦ h⟩) cause

theorem sound_expectName (c : Cursor) (cause : GrammarError) :
    Sound OneName c (c.expectName cause) :=
  Reply.ends_map (ends_expect (fun t _ hrest hkind ↦ ⟨[t], (Parsed.token hrest).imp
    (List.Subperm.refl _) (fun _ ↦ ⟨t, rfl, hkind, rfl⟩) fun h ↦ h hkind⟩) cause)

end Grammar

end Lox
