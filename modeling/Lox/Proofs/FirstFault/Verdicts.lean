import Lox.Proofs.Grammar.Relaxed

/-!
What a rule of the parser makes of a language. If the words of a language are what may come at a
cursor, a rule that answers leads to another cursor, where the words of another language may come:
those that are left of the first. A rule that fails halts at a token with which no word goes on,
behind a beginning of some word. A rule that catches errors may go on after that; then the first
fault that it has reported lies at such a token. The verdicts of rules put one behind the other are
put together as the languages are.
-/

set_option autoImplicit false

namespace Lox

/-- Any error but an invalid target, after which reading goes on as if it had been a valid one. -/
def Diagnostic.isFault : Diagnostic → Bool
  | .grammar _ _ .assignmentTarget => false
  | _ => true

namespace Grammar

open Ebnf

/-- A word is read from the first cursor to the second, and no fault is reported. -/
structure Passes (c : Cursor) (w : List Token) (next : Cursor) : Prop where
  rest : c.rest = w ++ next.rest
  endLine : next.endLine = c.endLine
  reports : ∃ ds, next.reports = c.reports ++ ds ∧ ∀ d ∈ ds, d.isFault = false

/-- The words that begin with the next token, or are empty if there is none. -/
def Ahead (c : Cursor) (x : List Token) : Prop := x.head? = c.rest.head?

/-- If the words of `X` may come at the first cursor, those of `Y` may come at the second. -/
def Leads (X : Language Token) (c : Cursor) (Y : Language Token) (next : Cursor) : Prop :=
  ∃ w, Passes c w next ∧ (∀ y ∈ Y, w ++ y ∈ X) ∧ ∀ y, Ahead next y → w ++ y ∈ X → y ∈ Y

/-- A word of `X` may begin with what stands before the second cursor, and none goes on there. -/
def Halts (X : Language Token) (c next : Cursor) : Prop :=
  ∃ w, Passes c w next ∧ (∃ y, w ++ y ∈ X) ∧ ∀ y, Ahead next y → w ++ y ∉ X

/-- No word begins with the next token, or is empty if there is none. -/
def Misses (X : Language Token) (c : Cursor) : Prop := ∀ x ∈ X, ¬Ahead c x

/-- The first fault after the first cursor has been reported where reading halted. -/
def Spoilt (X : Language Token) (c next : Cursor) : Prop :=
  ∃ m cause, Halts X c m ∧ cause ≠ .assignmentTarget ∧
    ∃ ds, next.reports = m.reports ++ m.complaint cause :: ds

/-! ### Words and cursors -/

theorem Passes.nothing (c : Cursor) : Passes c [] c where
  rest := rfl
  endLine := rfl
  reports := ⟨[], (List.append_nil _).symm, fun _ hd ↦ nomatch hd⟩

theorem Passes.trans {c m next : Cursor} {w w' : List Token} (h : Passes c w m)
    (h' : Passes m w' next) : Passes c (w ++ w') next := by
  obtain ⟨ds, hds, hclean⟩ := h.reports
  obtain ⟨ds', hds', hclean'⟩ := h'.reports
  refine ⟨?_, h'.endLine.trans h.endLine, ds ++ ds', ?_, ?_⟩
  · rw [h.rest, h'.rest, List.append_assoc]
  · rw [hds', hds, List.append_assoc]
  · intro d hd
    rcases List.mem_append.1 hd with hd | hd
    · exact hclean d hd
    · exact hclean' d hd

/-- What comes at the second cursor comes at the first behind the word. -/
theorem Ahead.append {m next : Cursor} {w y : List Token} (h : Passes m w next)
    (hy : Ahead next y) : Ahead m (w ++ y) := by
  unfold Ahead at hy ⊢
  rw [h.rest, List.head?_append, List.head?_append, hy]

theorem Passes.reported {c next : Cursor} {w : List Token} (h : Passes c w next) :
    ∃ ds, next.reports = c.reports ++ ds := by
  obtain ⟨ds, hds, -⟩ := h.reports
  exact ⟨ds, hds⟩

theorem Leads.reports {X Y : Language Token} {c next : Cursor} (h : Leads X c Y next) :
    ∃ ds, next.reports = c.reports ++ ds := by
  obtain ⟨w, hw, -⟩ := h
  exact hw.reported

theorem Halts.reports {X : Language Token} {c next : Cursor} (h : Halts X c next) :
    ∃ ds, next.reports = c.reports ++ ds := by
  obtain ⟨w, hw, -⟩ := h
  exact hw.reported

theorem Spoilt.reports {X : Language Token} {c next : Cursor} (h : Spoilt X c next) :
    ∃ ds, next.reports = c.reports ++ ds := by
  obtain ⟨m, cause, hhalts, -, ds, hds⟩ := h
  obtain ⟨ds', hds'⟩ := hhalts.reports
  exact ⟨_, by rw [hds, hds', List.append_assoc]⟩

theorem Leads.trans {X Y Z : Language Token} {c m next : Cursor} (h : Leads X c Y m)
    (h' : Leads Y m Z next) : Leads X c Z next := by
  obtain ⟨w, hw, hto, hfrom⟩ := h
  obtain ⟨w', hw', hto', hfrom'⟩ := h'
  refine ⟨w ++ w', hw.trans hw', ?_, ?_⟩
  · intro z hz
    rw [List.append_assoc]
    exact hto _ (hto' z hz)
  · intro z hz hmem
    rw [List.append_assoc] at hmem
    exact hfrom' z hz (hfrom _ (hz.append hw') hmem)

theorem Leads.halts {X Y : Language Token} {c m next : Cursor} (h : Leads X c Y m)
    (h' : Halts Y m next) : Halts X c next := by
  obtain ⟨w, hw, hto, hfrom⟩ := h
  obtain ⟨w', hw', ⟨y, hy⟩, hnone⟩ := h'
  refine ⟨w ++ w', hw.trans hw', ⟨y, ?_⟩, ?_⟩
  · rw [List.append_assoc]
    exact hto _ hy
  · intro z hz hmem
    rw [List.append_assoc] at hmem
    exact hnone z hz (hfrom _ (hz.append hw') hmem)

theorem Leads.spoilt {X Y : Language Token} {c m next : Cursor} (h : Leads X c Y m)
    (h' : Spoilt Y m next) : Spoilt X c next := by
  obtain ⟨last, cause, hhalts, hcause, hds⟩ := h'
  exact ⟨last, cause, h.halts hhalts, hcause, hds⟩

theorem Spoilt.later {X : Language Token} {c m next : Cursor} (h : Spoilt X c m)
    {ds : List Diagnostic} (hds : next.reports = m.reports ++ ds) : Spoilt X c next := by
  obtain ⟨last, cause, hhalts, hcause, ds', hds'⟩ := h
  refine ⟨last, cause, hhalts, hcause, ds' ++ ds, ?_⟩
  rw [hds, hds', List.append_assoc]
  rfl

/-! ### Choices -/

section

variable {X Y K : Language Token} {c : Cursor}

theorem leads_refl : Leads X c X c :=
  ⟨[], Passes.nothing c, fun _ hy ↦ hy, fun _ _ hy ↦ hy⟩

theorem leads_left (h : Misses Y c) : Leads (X + Y) c X c := by
  refine ⟨[], Passes.nothing c, fun y hy ↦ .inl hy, ?_⟩
  rintro y hahead (hy | hy)
  · exact hy
  · exact absurd hahead (h y hy)

theorem leads_right (h : Misses X c) : Leads (X + Y) c Y c := by
  rw [add_comm]
  exact leads_left h

theorem halts_of_misses (hlive : Live X) (h : Misses X c) : Halts X c c := by
  obtain ⟨x, hx⟩ := hlive
  exact ⟨[], Passes.nothing c, ⟨x, hx⟩, fun y hahead hy ↦ h y hy hahead⟩

theorem Misses.add (h : Misses X c) (h' : Misses Y c) : Misses (X + Y) c := by
  rintro x (hx | hx)
  · exact h x hx
  · exact h' x hx

/-- A right side is missed if it cannot be empty and cannot begin with what comes next. -/
theorem misses_of_begins {e : Ebnf Part} (hnone : e.begins Part.first none = false)
    (hhead : e.begins Part.first (headKind c.rest) = false) : Misses (L e * K) c := by
  rintro x hx hahead
  obtain ⟨u, hu, v, -, rfl⟩ := Language.mem_mul.1 hx
  have hbegins := begins_of_mem first_rule hu
  cases u with
  | nil =>
    change e.begins Part.first none = true at hbegins
    rw [hnone] at hbegins
    cases hbegins
  | cons t u =>
    have hkind : headKind c.rest = headKind (t :: u) := congrArg (Option.map Token.kind) hahead.symm
    rw [hkind, hbegins] at hhead
    cases hhead

/-- The first of two right sides is meant if the second cannot begin with what comes next. -/
theorem leads_one {a b : Ebnf Part} (hnone : b.begins Part.first none = false)
    (hhead : b.begins Part.first (headKind c.rest) = false) :
    Leads (L (a + b) * K) c (L a * K) c := by
  rw [L_add, add_mul]
  exact leads_left (misses_of_begins hnone hhead)

theorem leads_other {a b : Ebnf Part} (hnone : a.begins Part.first none = false)
    (hhead : a.begins Part.first (headKind c.rest) = false) :
    Leads (L (a + b) * K) c (L b * K) c := by
  rw [L_add, add_mul]
  exact leads_right (misses_of_begins hnone hhead)

theorem leads_part (s : Part) : Leads (L (part s) * K) c (L (relaxed s) * K) c := by
  rw [L_part]
  exact leads_refl

theorem leads_both (a b : Ebnf Part) : Leads (L (a * b) * K) c (L a * (L b * K)) c := by
  rw [L_mul, mul_assoc]
  exact leads_refl

/-- Languages that may come behind a word that some tokens would continue. -/
structure Behind (kinds : List Token.Kind) (K : Language Token) : Prop where
  live : Live K
  stops : ∀ x ∈ K, Stops kinds x

theorem Behind.mono {kinds kinds' : List Token.Kind} (h : Behind kinds K)
    (hsub : ∀ kind ∈ kinds', kind ∈ kinds) : Behind kinds' K :=
  ⟨h.live, fun x hx ↦ (h.stops x hx).mono hsub⟩

theorem Behind.misses {kinds : List Token.Kind} (h : Behind kinds K) {kind : Token.Kind}
    (hmem : kind ∈ kinds) (hhead : headKind c.rest = some kind) : Misses K c := by
  intro x hx hahead
  have hkind : headKind x = some kind := (congrArg (Option.map Token.kind) hahead).trans hhead
  cases x with
  | nil => cases hkind
  | cons t u =>
    have ht : t.kind = kind := Option.some.inj hkind
    exact h.stops _ hx t u rfl (ht ▸ hmem)

/-- Behind a right side that cannot be empty comes what it begins with. -/
theorem behind_of_begins {kinds : List Token.Kind} {e : Ebnf Part} (he : Live (L e)) (hK : Live K)
    (hnone : e.begins Part.first none = false)
    (hkinds : ∀ kind ∈ kinds, e.begins Part.first (some kind) = false) :
    Behind kinds (L e * K) := by
  refine ⟨he.mul hK, ?_⟩
  rintro x hx t u rfl hmem
  obtain ⟨w, hw, v, -, heq⟩ := Language.mem_mul.1 hx
  have hbegins := begins_of_mem first_rule hw
  cases w with
  | nil =>
    change e.begins Part.first none = true at hbegins
    rw [hnone] at hbegins
    cases hbegins
  | cons t' w =>
    cases heq
    change e.begins Part.first (some t.kind) = true at hbegins
    rw [hkinds _ hmem] at hbegins
    cases hbegins

theorem Behind.add {kinds : List Token.Kind} (h : Behind kinds X) (h' : Behind kinds Y) :
    Behind kinds (X + Y) := by
  refine ⟨h.live.left Y, ?_⟩
  rintro x (hx | hx)
  · exact h.stops x hx
  · exact h'.stops x hx

end

/-! ### Verdicts -/

/-- What is left of the language of a reply's cursor if it is an answer, and where reading halted
if it is a failure. If errors may have been caught, either may be spoilt. -/
def Judged {α : Type} {n : Nat} (caught : Prop) (X : Language Token) (c : Cursor)
    (Y : Language Token) : Reply n α → Prop
  | .done _ next _ => Leads X c Y next ∨ caught ∧ Spoilt X c next
  | .failed d next _ =>
    (Halts X c next ∧ ∃ cause, cause ≠ .assignmentTarget ∧ d = next.complaint cause) ∨
      caught ∧ Spoilt X c next

section

variable {α β : Type} {n : Nat} {caught : Prop} {X Y Z : Language Token} {c : Cursor}

theorem Leads.judged {m : Cursor} {r : Reply n α} (h : Leads X c Y m) (h' : Judged caught Y m Z r) :
    Judged caught X c Z r := by
  cases r with
  | done value next shorter =>
    rcases h' with h' | ⟨hcaught, h'⟩
    · exact .inl (h.trans h')
    · exact .inr ⟨hcaught, h.spoilt h'⟩
  | failed d next notLonger =>
    rcases h' with ⟨h', hcause⟩ | ⟨hcaught, h'⟩
    · exact .inl ⟨h.halts h', hcause⟩
    · exact .inr ⟨hcaught, h.spoilt h'⟩

/-- After a fault has been caught, what is read further does not matter. -/
theorem Spoilt.judged {m : Cursor} {r : Reply n α} (hcaught : caught) (h : Spoilt X c m)
    (h' : Judged caught Y m Z r) : Judged caught X c Z r := by
  cases r with
  | done value next shorter =>
    obtain ⟨ds, hds⟩ : ∃ ds, next.reports = m.reports ++ ds :=
      h'.elim Leads.reports fun h' ↦ h'.2.reports
    exact .inr ⟨hcaught, h.later hds⟩
  | failed d next notLonger =>
    obtain ⟨ds, hds⟩ : ∃ ds, next.reports = m.reports ++ ds :=
      h'.elim (fun h' ↦ h'.1.reports) fun h' ↦ h'.2.reports
    exact .inr ⟨hcaught, h.later hds⟩

theorem judged_bind {r : Reply n α}
    {next : (a : α) → (after : Cursor) → after.size < n → Reply n β}
    (h : Judged caught X c Y r)
    (hnext : ∀ a after less, Judged caught Y after Z (next a after less)) :
    Judged caught X c Z (r.bind next) := by
  cases r with
  | done value after less =>
    rcases h with h | ⟨hcaught, h⟩
    · exact h.judged (hnext value after less)
    · exact h.judged hcaught (hnext value after less)
  | failed d after notLonger => exact h

theorem judged_andThen {m : Cursor} {r : Reply m.size α} {less : m.size < n}
    {next : (a : α) → (after : Cursor) → after.size < m.size → after.size < n → Reply n β}
    (h : Judged caught X c Y r)
    (hnext : ∀ a after shorter less, Judged caught Y after Z (next a after shorter less)) :
    Judged caught X c Z (r.andThen less next) := by
  cases r with
  | done value after shorter =>
    rcases h with h | ⟨hcaught, h⟩
    · exact h.judged (hnext value after shorter _)
    · exact h.judged hcaught (hnext value after shorter _)
  | failed d after notLonger => exact h

theorem judged_inside {m : Cursor} {r : Reply m.size α} {less : m.size < n}
    (h : Judged caught X c Y r) : Judged caught X c Y (r.inside less) := by
  cases r <;> exact h

theorem judged_map {f : α → β} {r : Reply n α} (h : Judged caught X c Y r) :
    Judged caught X c Y (r.map f) := by
  cases r <;> exact h

theorem judged_done {a : α} {next : Cursor} {less : next.size < n} (h : Leads X c Y next) :
    Judged caught X c Y (.done a next less) :=
  .inl h

/-- Where nothing is caught, an answer has been led to. -/
theorem Judged.leads {a : α} {next : Cursor} {less : next.size < n}
    (h : Judged False X c Y (.done a next less)) : Leads X c Y next :=
  h.resolve_right fun hspoilt ↦ hspoilt.1

/-- Where nothing is caught, reading has halted at a failure, which is that of the next token. -/
theorem Judged.halts {d : Diagnostic} {next : Cursor} {notLonger : next.size ≤ n}
    (h : Judged False X c Y (.failed d next notLonger : Reply n α)) :
    Halts X c next ∧ ∃ cause, cause ≠ .assignmentTarget ∧ d = next.complaint cause :=
  h.resolve_right fun hspoilt ↦ hspoilt.1

/-- Rules in which nothing is caught can be parts of such in which errors are. -/
theorem Judged.of_strict {r : Reply n α} (h : Judged False X c Y r) : Judged caught X c Y r := by
  cases r with
  | done value next shorter => exact .inl h.leads
  | failed d next notLonger => exact .inl h.halts

end

/-! ### Tokens -/

section

variable {caught : Prop} {X K : Language Token} {c : Cursor} {t : Token} {rest : List Token}

theorem passes_token (hrest : c.rest = t :: rest) : Passes c [t] c.skip where
  rest := by rw [rest_skip hrest, hrest]; rfl
  endLine := rfl
  reports := ⟨[], (List.append_nil _).symm, fun _ hd ↦ nomatch hd⟩

theorem leads_token {among : Token.Kind → Bool} (hrest : c.rest = t :: rest)
    (hkind : among t.kind = true) : Leads (L (token among) * K) c K c.skip := by
  refine ⟨[t], passes_token hrest, ?_, ?_⟩
  · intro y hy
    exact Language.append_mem_mul (mem_words_token.2 ⟨t, hkind, rfl⟩) hy
  · intro y _ hmem
    obtain ⟨u, hu, v, hv, heq⟩ := Language.mem_mul.1 hmem
    obtain ⟨t', -, rfl⟩ := mem_words_token.1 hu
    cases heq
    exact hv

theorem leads_only {kind : Token.Kind} (hrest : c.rest = t :: rest) (hkind : t.kind = kind) :
    Leads (L (only kind) * K) c K c.skip :=
  leads_token hrest (decide_eq_true hkind)

theorem headKind_cons (hrest : c.rest = t :: rest) : headKind c.rest = some t.kind := by
  rw [hrest]
  rfl

theorem sees_eq (c : Cursor) (kind : Token.Kind) :
    c.sees kind = true ↔ headKind c.rest = some kind := by
  rw [Cursor.sees_iff]
  constructor
  · rintro ⟨t, ht, hrest⟩
    rw [headKind_cons hrest, ht]
  · intro h
    cases hrest : c.rest with
    | nil =>
      rw [hrest] at h
      cases h
    | cons t rest =>
      rw [hrest] at h
      exact ⟨t, Option.some.inj h, by rw [rest_skip hrest]⟩

theorem leads_seen {kind : Token.Kind} (h : c.sees kind = true) :
    Leads (L (only kind) * K) c K c.skip := by
  obtain ⟨t, ht, hrest⟩ := Cursor.sees_iff.1 h
  exact leads_only hrest ht

theorem begins_only {kind : Token.Kind} (h : headKind c.rest ≠ some kind) :
    (only kind : Ebnf Part).begins Part.first (headKind c.rest) = false := by
  cases hhead : headKind c.rest with
  | none => rfl
  | some kind' => exact decide_eq_false fun heq ↦ h (hhead.trans (congrArg some heq))

theorem misses_only {kind : Token.Kind} (h : headKind c.rest ≠ some kind) :
    Misses (L (only kind) * K) c :=
  misses_of_begins rfl (begins_only h)

theorem misses_unseen {kind : Token.Kind} (h : ¬c.sees kind = true) :
    Misses (L (only kind) * K) c :=
  misses_only fun hhead ↦ h ((sees_eq c kind).2 hhead)

theorem judged_fail {α : Type} {Y : Language Token} (hlive : Live X) (h : Misses X c)
    {cause : GrammarError} (hcause : cause ≠ .assignmentTarget) :
    Judged caught X c Y (c.fail cause : Reply c.size α) :=
  .inl ⟨halts_of_misses hlive h, cause, hcause, rfl⟩

theorem judged_expect (hK : Live K) {kind : Token.Kind} {cause : GrammarError}
    (hcause : cause ≠ .assignmentTarget) :
    Judged caught (L (only kind) * K) c K (c.expect kind cause) := by
  unfold Cursor.expect
  split
  next hrest =>
    refine judged_fail ((live_only kind).mul hK) (misses_only ?_) hcause
    rw [hrest]
    exact (Option.some_ne_none kind).symm
  next t rest hrest =>
    split
    next hkind => exact judged_done (leads_only hrest hkind)
    next hkind =>
      refine judged_fail ((live_only kind).mul hK) (misses_only ?_) hcause
      rw [headKind_cons hrest]
      exact fun h ↦ hkind (Option.some.inj h)

theorem passes_draw (c : Cursor) : Passes c [] c.draw where
  rest := rfl
  endLine := rfl
  reports := ⟨[], (List.append_nil _).symm, fun _ hd ↦ nomatch hd⟩

theorem passes_report {d : Diagnostic} (hd : d.isFault = false) : Passes c [] (c.report d) where
  rest := rfl
  endLine := rfl
  reports := ⟨[d], rfl, fun _ hmem ↦ List.mem_singleton.1 hmem ▸ hd⟩

/-- A cursor that has only been changed otherwise stands before the same words. -/
theorem leads_still {next : Cursor} (h : Passes c [] next) : Leads K c K next :=
  ⟨[], h, fun _ hy ↦ hy, fun _ _ hy ↦ hy⟩

theorem complaint_isFault (c : Cursor) (cause : GrammarError) :
    (c.complaint cause).isFault = true ↔ cause ≠ .assignmentTarget := by
  unfold Cursor.complaint
  split <;> cases cause <;> simp [Diagnostic.isFault]

theorem judged_expectName (hK : Live K) {cause : GrammarError}
    (hcause : cause ≠ .assignmentTarget) :
    Judged caught (L (only .identifier) * K) c K (c.expectName cause) :=
  judged_map (judged_expect hK hcause)

end

/-! ### Options and repetitions -/

section

variable {X Y K : Language Token} {c : Cursor} {e : Ebnf Part}

theorem leads_present (h : Misses K c) : Leads (L (opt e) * K) c (L e * K) c := by
  rw [L_opt, add_mul, one_mul]
  exact leads_left h

theorem leads_absent (h : Misses (L e * K) c) : Leads (L (opt e) * K) c K c := by
  rw [L_opt, add_mul, one_mul]
  exact leads_right h

theorem L_many_mul (e : Ebnf Part) (K : Language Token) :
    L (many e) * K = K + L e * (L (many e) * K) := by
  nth_rewrite 1 [L_many]
  rw [add_mul, one_mul, mul_assoc]

theorem leads_more (h : Misses K c) :
    Leads (L (many e) * K) c (L e * (L (many e) * K)) c := by
  nth_rewrite 1 [L_many_mul]
  exact leads_right h

theorem leads_last (h : Misses (L e * (L (many e) * K)) c) : Leads (L (many e) * K) c K c := by
  rw [L_many_mul]
  exact leads_left h

theorem Behind.opt {kinds : List Token.Kind} (hK : Behind kinds K) (h : Behind kinds (L e * K)) :
    Behind kinds (L (opt e) * K) := by
  rw [L_opt, add_mul, one_mul]
  exact h.add hK

theorem Behind.many {kinds : List Token.Kind} (hK : Behind kinds K)
    (h : Behind kinds (L e * (L (many e) * K))) : Behind kinds (L (many e) * K) := by
  rw [L_many_mul]
  exact hK.add h

end

end Grammar

end Lox
