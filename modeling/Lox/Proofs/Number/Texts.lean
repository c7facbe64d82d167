import Lox.Proofs.Number.Rounding
import Lox.Proofs.Token.Lexemes
import Lox.Tree.Text
import Lox.Token.Text

/-!
The written forms of a number read back. A decimal in positional form is a numeral, and scanning it
rounds the decimal (`lexeme_plain`); the shortest decimal of a number rounds to the number by the
way it is found, and the finest one because it is exact (`nearest_shortest`). So the texts of a
number without a sign are one token each, of that number.
-/

set_option autoImplicit false

namespace Lox

namespace Scan

/-! ### Numerals -/

theorem isDigit_of_core {c : Char} (h : c.isDigit) : isDigit c := by
  obtain ⟨hlow, hhigh⟩ := Char.isDigit_iff_toNat.1 h
  simp only [isDigit, Bool.and_eq_true, decide_eq_true_eq]
  exact ⟨hlow, hhigh⟩

theorem isDigit_of_mem_toDigits {n : Nat} : ∀ c ∈ Nat.toDigits 10 n, isDigit c :=
  fun _ hc ↦ isDigit_of_core (Nat.isDigit_of_mem_toDigits (by decide) (by decide) hc)

theorem isDigit_of_mem_zeros {zeros : Nat} : ∀ c ∈ List.replicate zeros '0', isDigit c := by
  intro c hc
  rw [List.eq_of_mem_replicate hc]
  rfl

theorem wholeNumber_eq (cs : List Char) : wholeNumber cs = Nat.ofDigitChars 10 cs 0 := by
  unfold wholeNumber Nat.ofDigitChars digitValue
  simp only [Nat.mul_comm]

theorem wholeNumber_toDigits (n : Nat) : wholeNumber (Nat.toDigits 10 n) = n := by
  rw [wholeNumber_eq, Nat.ofDigitChars_toDigits (by decide) (by decide)]

/-- Zeros at the end multiply by ten. -/
theorem wholeNumber_append_zeros (cs : List Char) (zeros : Nat) :
    wholeNumber (cs ++ List.replicate zeros '0') = wholeNumber cs * 10 ^ zeros := by
  rw [wholeNumber_eq, wholeNumber_eq, Nat.ofDigitChars_append, Nat.ofDigitChars_replicate_zero,
    Nat.mul_comm]

/-- Zeros at the front change nothing. -/
theorem wholeNumber_zeros_append (zeros : Nat) (cs : List Char) :
    wholeNumber (List.replicate zeros '0' ++ cs) = wholeNumber cs := by
  rw [wholeNumber_eq, wholeNumber_eq, Nat.ofDigitChars_append, Nat.ofDigitChars_replicate_zero,
    Nat.mul_zero]

theorem lexeme_digits (ds : List Char) (hne : ds ≠ []) (h : ∀ d ∈ ds, isDigit d) :
    Lexeme (.number (Number.ofDigits (wholeNumber ds) 0)) ds := by
  obtain ⟨c, cs, rfl⟩ := List.exists_cons_of_ne_nil hne
  exact .whole (h c List.mem_cons_self) fun d hd ↦ h d (List.mem_cons_of_mem _ hd)

theorem lexeme_point (ds es : List Char) (hne : ds ≠ []) (hne' : es ≠ [])
    (h : ∀ d ∈ ds, isDigit d) (h' : ∀ e ∈ es, isDigit e) :
    Lexeme (.number (Number.ofDigits (wholeNumber (ds ++ es)) es.length)) (ds ++ '.' :: es) := by
  obtain ⟨c, cs, rfl⟩ := List.exists_cons_of_ne_nil hne
  obtain ⟨d, es, rfl⟩ := List.exists_cons_of_ne_nil hne'
  exact .point (h c List.mem_cons_self) (fun d hd ↦ h d (List.mem_cons_of_mem _ hd))
    (h' d List.mem_cons_self) fun e he ↦ h' e (List.mem_cons_of_mem _ he)

end Scan

namespace Decimal

open Scan

/-- The number that a decimal is rounded to. -/
def nearest (d : Decimal) : Number :=
  match d.exponent with
  | .ofNat zeros => Number.ofDigits (d.coefficient * 10 ^ zeros) 0
  | .negSucc less => Number.ofDigits d.coefficient (less + 1)

theorem lexeme_withPoint {ds : List Char} (h : ∀ d ∈ ds, isDigit d) {places : Nat}
    (hplaces : 0 < places) :
    Lexeme (.number (Number.ofDigits (wholeNumber ds) places)) (withPoint ds places) := by
  let padded := List.replicate (places + 1 - ds.length) '0' ++ ds
  have hlength : padded.length = places + 1 - ds.length + ds.length := by
    rw [List.length_append, List.length_replicate]
  have hdigits : ∀ d ∈ padded, isDigit d := List.forall_mem_append.2 ⟨isDigit_of_mem_zeros, h⟩
  -- a digit is left before the point, since the zeros make the row longer than the places
  have hdrop : (padded.drop (padded.length - places)).length = places := by
    rw [List.length_drop]
    omega
  have htake : (padded.take (padded.length - places)).length ≠ 0 := by
    rw [List.length_take]
    omega
  have hafter : padded.drop (padded.length - places) ≠ [] := by
    intro hnil
    rw [hnil] at hdrop
    exact hplaces.ne hdrop
  have hlexeme := lexeme_point _ _ (mt List.length_eq_zero_iff.2 htake) hafter
    (fun d hd ↦ hdigits d (List.mem_of_mem_take hd))
    (fun d hd ↦ hdigits d (List.mem_of_mem_drop hd))
  rw [List.take_append_drop, hdrop, wholeNumber_zeros_append] at hlexeme
  exact hlexeme

/-- A decimal in positional form is read as the number nearest to it. -/
theorem lexeme_plain (d : Decimal) : Lexeme (.number d.nearest) d.plain := by
  have hdigits : ∀ c ∈ d.digits, isDigit c := isDigit_of_mem_toDigits
  have hvalue : wholeNumber d.digits = d.coefficient := wholeNumber_toDigits _
  unfold nearest plain
  cases d.exponent with
  | ofNat zeros =>
    have hzeros : ∀ c ∈ d.digits ++ List.replicate zeros '0', isDigit c :=
      List.forall_mem_append.2 ⟨hdigits, isDigit_of_mem_zeros⟩
    have hne : d.digits ++ List.replicate zeros '0' ≠ [] :=
      List.append_ne_nil_of_left_ne_nil Nat.toDigits_ne_nil _
    have hlexeme := lexeme_digits _ hne hzeros
    rw [wholeNumber_append_zeros, hvalue] at hlexeme
    exact hlexeme
  | negSucc less =>
    have hlexeme := lexeme_withPoint hdigits (Nat.succ_pos less)
    rw [hvalue] at hlexeme
    exact hlexeme

/-- A point of the finest grid. -/
theorem nearest_finest (coefficient : Nat) :
    nearest ⟨coefficient, -(Number.places : Int)⟩ = Number.ofDigits coefficient Number.places := rfl

/-- A point of a grid, counted in its steps, is rounded as when it is counted in the least ones. -/
theorem nearest_grid (coefficient grid : Nat) :
    nearest ⟨coefficient, (grid : Int) - (Number.places : Int)⟩ =
      Number.ofDigits (coefficient * Nat.pow 10 grid) Number.places := by
  rw [show Nat.pow 10 grid = 10 ^ grid from rfl]
  rcases Nat.lt_or_ge grid Number.places with hlt | hge
  · obtain ⟨less, hless⟩ : ∃ less, Number.places = grid + (less + 1) :=
      ⟨Number.places - grid - 1, by omega⟩
    have hexponent : (grid : Int) - (Number.places : Int) = .negSucc less := by omega
    rw [hexponent, hless, Nat.add_comm grid, Number.ofDigits_mul_pow]
    rfl
  · obtain ⟨zeros, hzeros⟩ : ∃ zeros, grid = zeros + Number.places :=
      ⟨grid - Number.places, by omega⟩
    have hexponent : (grid : Int) - (Number.places : Int) = (zeros : Int) := by omega
    rw [hexponent, hzeros, Nat.pow_add, ← Nat.mul_assoc]
    have hshift := Number.ofDigits_mul_pow (coefficient * 10 ^ zeros) 0 Number.places
    rw [Nat.zero_add] at hshift
    exact hshift.symm

end Decimal

namespace Number

open Scan

variable {n : Number}

/-- Rounding is exact in the places that a unit takes. -/
theorem ofDigits_exact (hn : n.isFinite) {k : Nat} (hk : unitsPerOne = Nat.pow 2 k) :
    ofDigits (n.units * Nat.pow 5 k) k = n.abs := by
  refine ofQuotient_exact hn (Nat.pow_pos (by decide)) ?_
  rw [hk, Nat.mul_assoc]
  exact congrArg (n.units * ·) (Nat.mul_pow 5 2 k).symm

theorem unitsPerOne_eq : unitsPerOne = Nat.pow 2 places := by
  delta unitsPerOne
  congr 1

theorem ofDigits_exactCoefficient (hn : n.isFinite) :
    ofDigits n.exactCoefficient places = n.abs :=
  ofDigits_exact hn unitsPerOne_eq

theorem passes_of_pointAround? {tie : Tie} {passes : Nat → Bool} {whole step coefficient : Nat}
    (h : pointAround? tie passes whole step = some coefficient) :
    passes (coefficient * step) = true := by
  unfold pointAround? at h
  dsimp only at h
  split at h
  next => cases h
  next hlow _ =>
    cases h
    exact hlow
  next _ hhigh =>
    cases h
    exact hhigh
  next hlow hhigh =>
    split at h
    · cases h
      exact hlow
    split at h
    · cases h
      exact hhigh
    · split at h <;> cases h
      · exact hhigh
      · exact hlow

theorem ofDigits_gridPoint? {tie : Tie} {grid coefficient : Nat}
    (h : gridPoint? tie n grid = some coefficient) :
    ofDigits (coefficient * Nat.pow 10 grid) places = n.abs :=
  of_decide_eq_true (passes_of_pointAround? h)

/-- When every point that a grid gives is read as `m`, and the finest one is, so is the coarsest. -/
theorem nearest_coarsestFrom {point? : Nat → Option Nat} {finest : Nat} {m : Number}
    (hfinest : ofDigits finest places = m)
    (hpoint : ∀ grid coefficient, point? grid = some coefficient →
      ofDigits (coefficient * Nat.pow 10 grid) places = m) (grid : Nat) :
    (coarsestFrom point? finest grid).nearest = m := by
  induction grid with
  | zero => exact (Decimal.nearest_finest finest).trans hfinest
  | succ grid ih =>
    unfold coarsestFrom
    cases hgrid : point? (grid + 1) with
    | none => exact ih
    | some coefficient =>
      exact (Decimal.nearest_grid coefficient (grid + 1)).trans (hpoint _ _ hgrid)

/-- The shortest decimal of a finite number rounds to it. -/
theorem nearest_shortest (tie : Tie) (hn : n.isFinite) : (n.shortest tie).nearest = n.abs :=
  nearest_coarsestFrom (ofDigits_exactCoefficient hn) (fun _ _ h ↦ ofDigits_gridPoint? h) _

/-! ### Texts of a number without a sign -/

theorem lexeme_shortest (tie : Tie) (hn : n.isFinite) (hsign : n.isNegative = false) :
    Lexeme (.number n) (n.shortest tie).plain := by
  have hlexeme := (n.shortest tie).lexeme_plain
  rwa [nearest_shortest tie hn, abs_eq_self hsign] at hlexeme

theorem ofDigits_wholePart (hn : n.isFinite) (hsign : n.isNegative = false) (hwhole : n.isWhole) :
    ofDigits n.wholePart 0 = n := by
  have hexact : n.wholePart * unitsPerOne = n.units * 1 := by
    rw [Nat.mul_one]
    exact Nat.div_mul_cancel (Nat.dvd_of_mod_eq_zero (of_decide_eq_true hwhole))
  exact (ofQuotient_exact hn Nat.one_pos hexact).trans (abs_eq_self hsign)

theorem lexeme_wholeDigits (hn : n.isFinite) (hsign : n.isNegative = false) (hwhole : n.isWhole) :
    Lexeme (.number n) n.wholeDigits := by
  have hlexeme := lexeme_digits n.wholeDigits Nat.toDigits_ne_nil isDigit_of_mem_toDigits
  rwa [show wholeNumber n.wholeDigits = n.wholePart from wholeNumber_toDigits _,
    ofDigits_wholePart hn hsign hwhole] at hlexeme

/-- A whole number with a zero place. -/
theorem lexeme_zeroPlace (hn : n.isFinite) (hsign : n.isNegative = false) (hwhole : n.isWhole) :
    Lexeme (.number n) (n.wholeDigits ++ ['.', '0']) := by
  have hlexeme := lexeme_point n.wholeDigits ['0'] Nat.toDigits_ne_nil (List.cons_ne_nil _ _)
    isDigit_of_mem_toDigits (List.forall_mem_singleton.2 rfl)
  have hvalue : wholeNumber (n.wholeDigits ++ ['0']) = n.wholePart * 10 ^ 1 := by
    rw [← wholeNumber_toDigits n.wholePart]
    exact wholeNumber_append_zeros _ 1
  have hshift := ofDigits_mul_pow n.wholePart 0 1
  rw [hvalue, show ['0'].length = 0 + 1 from rfl, hshift, ofDigits_wholePart hn hsign hwhole]
    at hlexeme
  exact hlexeme

theorem signed_readsAs (hsign : n.isNegative = false) {body : List Char}
    (h : Lexeme (.number n) body) : ReadsAs (n.signed body) (.number n) := by
  have hsigned : n.signed body = String.ofList body := by simp [signed, hsign]
  rw [hsigned]
  exact h.readsAs

/-- Only what is not finite is named. -/
theorem unnamed {α : Type} (hn : n.isFinite) (undefined infinite finite : α) :
    (if n.isNaN then undefined else if n.isInfinite then infinite else finite) = finite := by
  have hmagnitude : n.magnitude < infinityBits := of_decide_eq_true hn
  have hnan : n.isNaN = false := decide_eq_false (Nat.not_lt.2 (Nat.le_of_lt hmagnitude))
  have hinfinite : n.isInfinite = false := decide_eq_false (Nat.ne_of_lt hmagnitude)
  simp [hnan, hinfinite]

theorem treeText_readsAs (hn : n.isFinite) (hsign : n.isNegative = false) :
    ReadsAs n.treeText (.number n) := by
  rw [treeText, unnamed hn]
  by_cases hwhole : n.isWhole
  · rw [if_pos hwhole]
    exact signed_readsAs hsign (lexeme_zeroPlace hn hsign hwhole)
  · rw [if_neg hwhole]
    exact signed_readsAs hsign (lexeme_shortest .up hn hsign)

theorem units_of_isZero (hzero : n.isZero) : n.units = 0 := by
  have hmagnitude : n.magnitude = 0 := of_decide_eq_true hzero
  unfold units
  rw [hmagnitude, Nat.zero_sub, Nat.zero_mul]

theorem isWhole_of_isZero (hzero : n.isZero) : n.isWhole :=
  decide_eq_true (by rw [units_of_isZero hzero, Nat.zero_mod])

theorem tokenText_readsAs (hn : n.isFinite) (hsign : n.isNegative = false) :
    ReadsAs n.tokenText (.number n) := by
  rw [tokenText, unnamed hn]
  by_cases hzero : n.isZero
  -- zero loses its sign, and is written like the other whole numbers
  · have hlexeme := lexeme_zeroPlace hn hsign (isWhole_of_isZero hzero)
    have hdigits : n.wholeDigits = ['0'] := by
      unfold wholeDigits wholePart
      rw [units_of_isZero hzero, Nat.zero_div]
      rfl
    rw [hdigits] at hlexeme
    rw [if_pos hzero]
    exact hlexeme.readsAs
  rw [if_neg hzero]
  by_cases hsmall : (n.isWhole && decide (n.wholePart < signWeight)) = true
  · rw [if_pos hsmall]
    exact signed_readsAs hsign (lexeme_zeroPlace hn hsign (Bool.and_eq_true_iff.1 hsmall).1)
  · rw [if_neg hsmall]
    exact signed_readsAs hsign (lexeme_shortest .up hn hsign)

theorem text_readsAs (hn : n.isFinite) (hsign : n.isNegative = false) (hmid : n.isMidRange) :
    ReadsAs n.text (.number n) := by
  rw [text, unnamed hn, if_neg (by simp [hmid])]
  by_cases hwhole : n.isWhole
  · rw [if_pos hwhole]
    exact signed_readsAs hsign (lexeme_wholeDigits hn hsign hwhole)
  · rw [if_neg hwhole]
    exact signed_readsAs hsign (lexeme_shortest .up hn hsign)

/-- The texts of a finite number without a sign are read as that number: what a token and a printed
tree show of it always, and what printing it shows if it is zero, or at least a thousandth and less
than ten million. -/
theorem printed_number_reads_back (hn : n.isFinite) (hsign : n.isNegative = false) :
    (∀ lexeme line, ReadsAs (Token.literalText ⟨.number n, lexeme, line⟩) (.number n)) ∧
      ReadsAs (Expr.literal (.number n)).text (.number n) ∧
      (n.isZero ∨ unitsPerOne ≤ n.units * 1000 ∧ n.units < 10000000 * unitsPerOne →
        ReadsAs n.text (.number n)) := by
  refine ⟨fun _ _ ↦ tokenText_readsAs hn hsign, ?_, fun hmid ↦ text_readsAs hn hsign ?_⟩
  · rw [Expr.text]
    exact treeText_readsAs hn hsign
  · simpa [isMidRange] using hmid

/-- The number nearest to a tenth is not a tenth, and all of its texts are read as it. -/
theorem tenth_reads_back :
    (∀ lexeme line, ReadsAs (Token.literalText ⟨.number (ofDigits 1 1), lexeme, line⟩)
      (.number (ofDigits 1 1))) ∧
      ReadsAs (Expr.literal (.number (ofDigits 1 1))).text (.number (ofDigits 1 1)) ∧
      ReadsAs (ofDigits 1 1).text (.number (ofDigits 1 1)) := by
  have hmid : unitsPerOne ≤ (ofDigits 1 1).units * 1000 ∧
      (ofDigits 1 1).units < 10000000 * unitsPerOne := by decide +kernel
  obtain ⟨htoken, htree, htext⟩ :=
    printed_number_reads_back (n := ofDigits 1 1) (by decide +kernel) (by decide +kernel)
  exact ⟨htoken, htree, htext (.inr hmid)⟩

end Number

end Lox
