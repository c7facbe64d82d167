import Lox.Proofs.Token.Lexemes
import Lox.Tree.Text

/-!
Shapes of printed trees: words, and parts in parentheses. A word is written without spaces and
parentheses, so it ends where the first of them stands, and what that is tells a word from a
bracket. Therefore no two shapes are written alike (`Shape.text_injective`).
-/

set_option autoImplicit false

namespace Lox

/-- What a tree looks like in print: a word, or parts in parentheses. A bracket stands right after
its name, which is empty for a form. -/
inductive Shape
  | word (text : String)
  | bracket (name : String) (parts : List Shape)

namespace Shape

mutual

def text : Shape → String
  | .word text => text
  | .bracket name parts => name ++ form (texts parts)

def texts : List Shape → List String
  | [] => []
  | s :: ss => s.text :: texts ss

end

/-! ### Words -/

/-- Characters that are neither between parts nor around them. -/
def isSolid (c : Char) : Bool := c != ' ' && c != '(' && c != ')'

/-- The text is one word. -/
structure IsWord (text : String) : Prop where
  nonempty : text.toList ≠ []
  solid : ∀ c ∈ text.toList, isSolid c

instance (text : String) : Decidable (IsWord text) :=
  decidable_of_iff (text.toList ≠ [] ∧ text.toList.all isSolid)
    ⟨fun h ↦ ⟨h.1, List.all_eq_true.1 h.2⟩, fun h ↦ ⟨h.nonempty, List.all_eq_true.2 h.solid⟩⟩

mutual

/-- All words in the shape are words. -/
def Sound : Shape → Prop
  | .word text => IsWord text
  | .bracket name parts => (name = "" ∨ IsWord name) ∧ SoundAll parts

def SoundAll : List Shape → Prop
  | [] => True
  | s :: ss => s.Sound ∧ SoundAll ss

end

/-- A part of a bracket ends before these characters. -/
def Ends (rest : List Char) : Prop := ∀ c ∈ rest.head?, c = ' ' ∨ c = ')'

/-- The solid characters in front of what is not solid are as far as both go. -/
theorem solid_unique {word word' rest rest' : List Char} (h : ∀ c ∈ word, isSolid c)
    (h' : ∀ c ∈ word', isSolid c) (hrest : ∀ c ∈ rest.head?, isSolid c = false)
    (hrest' : ∀ c ∈ rest'.head?, isSolid c = false) (heq : word ++ rest = word' ++ rest') :
    word = word' ∧ rest = rest' := by
  obtain ⟨htake, hdrop⟩ := Scan.takeWhile_exact rest h hrest
  obtain ⟨htake', hdrop'⟩ := Scan.takeWhile_exact rest' h' hrest'
  rw [heq] at htake hdrop
  exact ⟨htake.symm.trans htake', hdrop.symm.trans hdrop'⟩

theorem Ends.not_solid {rest : List Char} (h : Ends rest) :
    ∀ c ∈ rest.head?, isSolid c = false := by
  intro c hc
  rcases h c hc with rfl | rfl <;> rfl

theorem left_not_solid (rest : List Char) : ∀ c ∈ ('(' :: rest).head?, isSolid c = false := by
  rintro c ⟨⟩
  rfl

/-! ### How a shape is written -/

/-- Parts after the first one. -/
def others (parts : List String) : List Char := parts.flatMap fun part ↦ ' ' :: part.toList

theorem toList_spaced (part : String) (parts : List String) :
    (spaced (part :: parts)).toList = part.toList ++ others parts := by
  induction parts generalizing part with
  | nil => simp [spaced, others]
  | cons part' parts ih =>
    have hspaced : spaced (part :: part' :: parts) = part ++ " " ++ spaced (part' :: parts) :=
      String.intercalate_cons_cons
    rw [hspaced, String.toList_append, String.toList_append, ih]
    simp [others]

theorem toList_form (parts : List String) :
    (form parts).toList = '(' :: ((spaced parts).toList ++ [')']) := by
  simp [form, String.toList_append]

theorem toList_bracket (name : String) (parts : List Shape) (rest : List Char) :
    (bracket name parts).text.toList ++ rest =
      name.toList ++ '(' :: ((spaced (texts parts)).toList ++ ')' :: rest) := by
  simp [text, String.toList_append, toList_form]

/-- What ends a bracket is not the first character of a part. -/
theorem Sound.not_right {s : Shape} (h : s.Sound) (rest more : List Char) :
    s.text.toList ++ rest ≠ ')' :: more := by
  have hsolid {name : String} (hname : IsWord name) (rest : List Char) :
      name.toList ++ rest ≠ ')' :: more := by
    obtain ⟨c, cs, hcs⟩ := List.exists_cons_of_ne_nil hname.nonempty
    have hc := hname.solid c (hcs ▸ List.mem_cons_self)
    rw [hcs]
    rintro heq
    cases (List.cons.inj heq).1
    cases hc
  cases s with
  | word text => exact hsolid h rest
  | bracket name parts =>
    rw [toList_bracket]
    rcases h.1 with rfl | hname
    · exact fun heq ↦ absurd (List.cons.inj heq).1 (by decide)
    · exact hsolid hname _

theorem name_solid {name : String} (h : name = "" ∨ IsWord name) :
    ∀ c ∈ name.toList, isSolid c := by
  rcases h with rfl | h
  · exact nofun
  · exact h.solid

theorem ends_others (ss : List Shape) (rest : List Char) :
    Ends (others (texts ss) ++ ')' :: rest) := by
  cases ss with
  | nil =>
    rintro c ⟨⟩
    exact .inr rfl
  | cons s ss =>
    rintro c ⟨⟩
    exact .inl rfl

theorem others_cons (s : Shape) (ss : List Shape) (rest : List Char) :
    others (texts (s :: ss)) ++ rest = ' ' :: (s.text.toList ++ (others (texts ss) ++ rest)) := by
  simp [others, texts]

/-- Brackets without parts are told from those with parts by their end, so the first part may be
compared as if a space stood before it, too. -/
theorem others_eq {ss ss' : List Shape} {rest rest' : List Char} (h : SoundAll ss)
    (h' : SoundAll ss') (heq : (spaced (texts ss)).toList ++ ')' :: rest =
      (spaced (texts ss')).toList ++ ')' :: rest') :
    others (texts ss) ++ ')' :: rest = others (texts ss') ++ ')' :: rest' := by
  match ss, ss', h, h' with
  | [], [], _, _ => exact heq
  | [], s' :: ss', _, h' =>
    rw [texts.eq_2, toList_spaced, List.append_assoc] at heq
    exact absurd heq.symm (h'.1.not_right _ _)
  | s :: ss, [], h, _ =>
    rw [texts.eq_2, toList_spaced, List.append_assoc] at heq
    exact absurd heq (h.1.not_right _ _)
  | s :: ss, s' :: ss', _, _ =>
    rw [texts, texts, toList_spaced, toList_spaced, List.append_assoc, List.append_assoc] at heq
    rw [others_cons, others_cons, heq]

/-! ### Shapes are written unambiguously -/

mutual

theorem unique : (s s' : Shape) → s.Sound → s'.Sound → {rest rest' : List Char} → Ends rest →
    Ends rest' → s.text.toList ++ rest = s'.text.toList ++ rest' → s = s' ∧ rest = rest'
  | .word text, .word text', h, h', rest, rest', hrest, hrest', heq => by
    obtain ⟨htext, hrest⟩ :=
      solid_unique h.solid h'.solid hrest.not_solid hrest'.not_solid heq
    exact ⟨congrArg word (String.toList_inj.1 htext), hrest⟩
  | .word text, .bracket name parts, h, h', rest, rest', hrest, hrest', heq => by
    rw [toList_bracket] at heq
    obtain ⟨-, rfl⟩ :=
      solid_unique h.solid (name_solid h'.1) hrest.not_solid (left_not_solid _) heq
    exact absurd (hrest _ rfl) (by decide)
  | .bracket name parts, .word text, h, h', rest, rest', hrest, hrest', heq => by
    rw [toList_bracket] at heq
    obtain ⟨-, rfl⟩ :=
      solid_unique (name_solid h.1) h'.solid (left_not_solid _) hrest'.not_solid heq
    exact absurd (hrest' _ rfl) (by decide)
  | .bracket name parts, .bracket name' parts', h, h', rest, rest', hrest, hrest', heq => by
    rw [toList_bracket, toList_bracket] at heq
    obtain ⟨hname, hparts⟩ := solid_unique (name_solid h.1) (name_solid h'.1) (left_not_solid _)
      (left_not_solid _) heq
    obtain ⟨rfl, hrests⟩ :=
      uniqueAll parts parts' h.2 h'.2 (others_eq h.2 h'.2 (List.cons.inj hparts).2)
    exact ⟨congrArg (bracket · parts) (String.toList_inj.1 hname), hrests⟩

theorem uniqueAll : (ss ss' : List Shape) → SoundAll ss → SoundAll ss' → {rest rest' : List Char} →
    others (texts ss) ++ ')' :: rest = others (texts ss') ++ ')' :: rest' →
    ss = ss' ∧ rest = rest'
  | [], [], _, _, _, _, heq => ⟨rfl, (List.cons.inj heq).2⟩
  | [], _ :: _, _, _, _, _, heq => absurd (List.cons.inj heq).1 (by decide)
  | _ :: _, [], _, _, _, _, heq => absurd (List.cons.inj heq).1 (by decide)
  | s :: ss, s' :: ss', h, h', rest, rest', heq => by
    rw [others_cons, others_cons] at heq
    obtain ⟨rfl, hothers⟩ :=
      unique s s' h.1 h'.1 (ends_others ss rest) (ends_others ss' rest') (List.cons.inj heq).2
    obtain ⟨rfl, hrests⟩ := uniqueAll ss ss' h.2 h'.2 hothers
    exact ⟨rfl, hrests⟩

end

/-- Shapes that are written alike are the same. -/
theorem text_injective {s s' : Shape} (h : s.Sound) (h' : s'.Sound) (htext : s.text = s'.text) :
    s = s' :=
  have hends : Ends [] := nofun
  have htexts : s.text.toList ++ [] = s'.text.toList ++ [] := by rw [htext]
  (unique s s' h h' hends hends htexts).1

end Shape

end Lox
