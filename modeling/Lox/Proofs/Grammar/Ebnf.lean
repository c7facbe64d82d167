import Lox.Token.Basic
import Mathlib.Computability.Language

/-!
Rules written in extended Backus–Naur form, and the languages of their right sides. A right side
is put together from tokens and symbols by sequence, choice and repetition; its words satisfy the
equations of a Kleene algebra (`words_both`, `words_either`, `words_many`). What a word begins with
is told from the rules alone (`begins_of_mem`), and so is what tokens it is made of
(`within_of_mem`).
-/

set_option autoImplicit false

namespace Lox.Grammar

/-- Right sides of rules over the symbols `σ`. A token is given by the kinds that it may have. -/
inductive Ebnf (σ : Type)
  | nothing
  | token (among : Token.Kind → Bool)
  | symbol (s : σ)
  | both (first second : Ebnf σ)
  | either (one other : Ebnf σ)
  | many (item : Ebnf σ)

namespace Ebnf

variable {σ : Type}

instance : Mul (Ebnf σ) := ⟨both⟩

instance : Add (Ebnf σ) := ⟨either⟩

/-- A token of one kind. -/
def only (kind : Token.Kind) : Ebnf σ := .token fun kind' ↦ decide (kind' = kind)

/-- An item or nothing. -/
def opt (item : Ebnf σ) : Ebnf σ := item + .nothing

/-- The token lists that a right side stands for. -/
inductive Spells (rules : σ → Ebnf σ) : Ebnf σ → List Token → Prop
  | nothing : Spells rules .nothing []
  | token {among : Token.Kind → Bool} {t : Token} (kind : among t.kind = true) :
    Spells rules (.token among) [t]
  | symbol {s : σ} {w : List Token} (rule : Spells rules (rules s) w) : Spells rules (.symbol s) w
  | both {a b : Ebnf σ} {w w' : List Token} (first : Spells rules a w)
    (second : Spells rules b w') : Spells rules (.both a b) (w ++ w')
  | one {a b : Ebnf σ} {w : List Token} (one : Spells rules a w) : Spells rules (.either a b) w
  | other {a b : Ebnf σ} {w : List Token} (other : Spells rules b w) : Spells rules (.either a b) w
  | stop {a : Ebnf σ} : Spells rules (.many a) []
  | more {a : Ebnf σ} {w w' : List Token} (first : Spells rules a w)
    (others : Spells rules (.many a) w') : Spells rules (.many a) (w ++ w')

def words (rules : σ → Ebnf σ) (e : Ebnf σ) : Language Token := {w | Spells rules e w}

/-! ### Equations -/

section

variable {rules : σ → Ebnf σ} (a b : Ebnf σ)

theorem words_nothing : words rules .nothing = 1 := by
  ext w
  constructor
  · intro h
    cases h
    rfl
  · intro h
    rw [(Language.mem_one w).1 h]
    exact .nothing

theorem mem_words_token {among : Token.Kind → Bool} {w : List Token} :
    w ∈ words rules (.token among) ↔ ∃ t, among t.kind = true ∧ w = [t] := by
  constructor
  · intro h
    cases h with
    | @token _ t kind => exact ⟨t, kind, rfl⟩
  · rintro ⟨t, kind, rfl⟩
    exact .token kind

theorem words_symbol (s : σ) : words rules (.symbol s) = words rules (rules s) := by
  ext w
  constructor
  · intro h
    cases h with
    | symbol rule => exact rule
  · intro h
    exact .symbol h

theorem words_both : words rules (a * b) = words rules a * words rules b := by
  ext w
  rw [Language.mem_mul]
  constructor
  · intro h
    cases h with
    | both first second => exact ⟨_, first, _, second, rfl⟩
  · rintro ⟨u, hu, v, hv, rfl⟩
    exact .both hu hv

theorem words_either : words rules (a + b) = words rules a + words rules b := by
  ext w
  rw [Language.mem_add]
  constructor
  · intro h
    cases h with
    | one one => exact .inl one
    | other other => exact .inr other
  · rintro (h | h)
    · exact .one h
    · exact .other h

theorem words_opt : words rules (opt a) = words rules a + 1 := by
  rw [opt, words_either, words_nothing]

/-- A repetition stops or goes on. -/
theorem words_many : words rules (.many a) = 1 + words rules a * words rules (.many a) := by
  ext w
  rw [Language.mem_add, Language.mem_one, Language.mem_mul]
  constructor
  · intro h
    cases h with
    | stop => exact .inl rfl
    | more first others => exact .inr ⟨_, first, _, others, rfl⟩
  · rintro (rfl | ⟨u, hu, v, hv, rfl⟩)
    · exact .stop
    · exact .more hu hv

end

/-! ### First tokens -/

/-- Whether a right side can begin with a token of a kind, or, at `none`, be empty, by what its
symbols can begin with. -/
def begins (first : σ → Option Token.Kind → Bool) : Ebnf σ → Option Token.Kind → Bool
  | .nothing, kind? => kind?.isNone
  | .token among, kind? => kind?.any among
  | .symbol s, kind? => first s kind?
  | .both a b, none => begins first a none && begins first b none
  | .both a b, some kind =>
    begins first a (some kind) || (begins first a none && begins first b (some kind))
  | .either a b, kind? => begins first a kind? || begins first b kind?
  | .many a, kind? => kind?.isNone || begins first a kind?

/-- The kind of the first token. -/
def headKind (w : List Token) : Option Token.Kind := w.head?.map Token.kind

/-- If the rules allow for the first tokens of their symbols, words begin as they can. -/
theorem begins_of_mem {rules : σ → Ebnf σ} {first : σ → Option Token.Kind → Bool}
    (hfirst : ∀ s kind?, begins first (rules s) kind? = true → first s kind? = true)
    {e : Ebnf σ} {w : List Token} (h : w ∈ words rules e) : begins first e (headKind w) = true := by
  change Spells rules e w at h
  induction h with
  | nothing => rfl
  | token kind => exact kind
  | symbol rule ih => exact hfirst _ _ ih
  | @both a b w w' first second ih ih' =>
    cases w with
    | nil =>
      have hnone : begins _ a none = true := ih
      cases hw' : headKind w' with
      | none =>
        have hlast := ih'
        rw [hw'] at hlast
        simp [hw', begins, hnone, hlast]
      | some kind =>
        have hlast := ih'
        rw [hw'] at hlast
        simp [hw', begins, hnone, hlast]
    | cons t w =>
      have hsome : begins _ a (some t.kind) = true := ih
      simp [headKind, begins, hsome]
  | one one ih => simp [begins, ih]
  | other other ih => simp [begins, ih]
  | stop => rfl
  | @more a w w' first others ih ih' =>
    cases w with
    | nil => exact ih'
    | cons t w =>
      have hsome : begins _ a (some t.kind) = true := ih
      simp [headKind, begins, hsome]

/-! ### Tokens inside -/

/-- Whether all tokens of a right side are of some kinds and all its symbols are among some. -/
def within (kinds : Token.Kind → Prop) (symbols : σ → Prop) : Ebnf σ → Prop
  | .nothing => True
  | .token among => ∀ kind, among kind = true → kinds kind
  | .symbol s => symbols s
  | .both a b => within kinds symbols a ∧ within kinds symbols b
  | .either a b => within kinds symbols a ∧ within kinds symbols b
  | .many a => within kinds symbols a

section

variable {kinds : Token.Kind → Prop} {symbols : σ → Prop} {a b : Ebnf σ}

theorem within_only {kind : Token.Kind} (h : kinds kind) : within kinds symbols (only kind) :=
  fun _ heq ↦ of_decide_eq_true heq ▸ h

theorem within_mul (ha : within kinds symbols a) (hb : within kinds symbols b) :
    within kinds symbols (a * b) :=
  ⟨ha, hb⟩

theorem within_add (ha : within kinds symbols a) (hb : within kinds symbols b) :
    within kinds symbols (a + b) :=
  ⟨ha, hb⟩

theorem within_opt (ha : within kinds symbols a) : within kinds symbols (opt a) :=
  ⟨ha, trivial⟩

end

/-- If the rules of some symbols keep to these symbols and to some kinds, so do their words. -/
theorem within_of_mem {rules : σ → Ebnf σ} {kinds : Token.Kind → Prop} {symbols : σ → Prop}
    (hrules : ∀ s, symbols s → within kinds symbols (rules s)) {e : Ebnf σ}
    (he : within kinds symbols e) {w : List Token} (h : w ∈ words rules e) :
    ∀ t ∈ w, kinds t.kind := by
  change Spells rules e w at h
  induction h with
  | nothing => exact fun t ht ↦ nomatch ht
  | @token among t kind =>
    intro t' ht'
    rw [List.mem_singleton.1 ht']
    exact he t.kind kind
  | symbol rule ih => exact ih (hrules _ he)
  | both first second ih ih' =>
    intro t ht
    rcases List.mem_append.1 ht with ht | ht
    · exact ih he.1 t ht
    · exact ih' he.2 t ht
  | one one ih => exact ih he.1
  | other other ih => exact ih he.2
  | stop => exact fun t ht ↦ nomatch ht
  | more first others ih ih' =>
    intro t ht
    rcases List.mem_append.1 ht with ht | ht
    · exact ih he t ht
    · exact ih' he t ht

end Ebnf

end Lox.Grammar
