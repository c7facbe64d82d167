import Lox.Number.Shortest
import Mathlib.Algebra.Order.Ring.Nat
import Mathlib.Tactic.Ring

/-!
What rounding a quotient gives. It depends on the quotient alone, however that is written
(`ofQuotient_mul_right`), and a quotient that is the value of a finite number is rounded to that
number (`ofQuotient_exact`): its units have the scale of the number, and its significand is whole.
-/

set_option autoImplicit false

namespace Lox

theorem nearestWhole_mul_right (num den : Nat) {k : Nat} (hk : 0 < k) :
    nearestWhole (num * k) (den * k) = nearestWhole num den := by
  have htwice : 2 * (num * k % (den * k)) = 2 * (num % den) * k := by
    rw [Nat.mul_mod_mul_right, Nat.mul_assoc]
  unfold nearestWhole
  dsimp only
  rw [htwice, Nat.mul_div_mul_right _ _ hk]
  simp only [Nat.mul_lt_mul_right hk]

theorem nearestWhole_mul (quotient : Nat) {den : Nat} (hden : 0 < den) :
    nearestWhole (quotient * den) den = quotient := by
  simp [nearestWhole, hden]

namespace Number

theorem ofQuotient_mul_right (num den : Nat) {k : Nat} (hk : 0 < k) :
    ofQuotient (num * k) (den * k) = ofQuotient num den := by
  have hscaled : num * k * unitsPerOne = num * unitsPerOne * k := Nat.mul_right_comm ..
  have hden : ∀ m, den * k * m = den * m * k := fun m ↦ Nat.mul_right_comm ..
  unfold ofQuotient
  dsimp only
  rw [hscaled, Nat.mul_div_mul_right _ _ hk, hden, nearestWhole_mul_right _ _ hk]

/-- Zeros at the end of the places change nothing. -/
theorem ofDigits_mul_pow (digits places zeros : Nat) :
    ofDigits (digits * 10 ^ zeros) (places + zeros) = ofDigits digits places := by
  have hpow : Nat.pow 10 (places + zeros) = Nat.pow 10 places * 10 ^ zeros := Nat.pow_add ..
  unfold ofDigits
  rw [hpow]
  exact ofQuotient_mul_right _ _ (Nat.pow_pos (by decide))

/-! ### Exact quotients -/

/-- The whole number that a finite number is, times the power of two of its scale. -/
def significand (n : Number) : Nat := n.magnitude - n.scale * fieldWeight

theorem units_eq (n : Number) : n.units = n.significand * 2 ^ n.scale := rfl

theorem magnitude_eq (n : Number) : n.magnitude = n.scale * fieldWeight + n.significand := by
  have hle : n.scale * fieldWeight ≤ n.magnitude :=
    (Nat.mul_le_mul_right _ (Nat.sub_le _ 1)).trans (Nat.div_mul_le_self _ _)
  unfold significand
  omega

/-- A significand has at most fifty-three bits, and so many if the scale is not the least. -/
theorem significand_bounds (n : Number) :
    n.significand < 2 ^ 53 ∧ (0 < n.scale → 2 ^ 52 ≤ n.significand) := by
  have hweight : fieldWeight = 2 ^ 52 := rfl
  have hmod := Nat.div_add_mod n.magnitude fieldWeight
  have hlt := Nat.mod_lt n.magnitude (show 0 < fieldWeight by decide)
  have hmagnitude := n.magnitude_eq
  have hscale : n.scale = n.magnitude / fieldWeight - 1 := rfl
  rcases Nat.eq_zero_or_pos (n.magnitude / fieldWeight) with hzero | hpos
  · rw [hzero] at hmod hscale
    rw [hscale] at hmagnitude ⊢
    omega
  · obtain ⟨field, hfield⟩ := Nat.exists_eq_succ_of_ne_zero hpos.ne'
    rw [hfield] at hmod hscale
    rw [hscale] at hmagnitude ⊢
    simp only [Nat.succ_sub_one, Nat.mul_succ] at hmagnitude hmod ⊢
    rw [Nat.mul_comm] at hmagnitude
    omega

theorem scaleFor_units (n : Number) : scaleFor n.units = n.scale := by
  obtain ⟨hlt, hge⟩ := n.significand_bounds
  unfold scaleFor
  rcases Nat.eq_zero_or_pos n.scale with hzero | hpos
  · have hunits : n.units = n.significand := by rw [units_eq, hzero, Nat.pow_zero, Nat.mul_one]
    have hlog : n.significand.log2 < 53 := by
      rcases Nat.eq_zero_or_pos n.significand with h | h
      · rw [h]
        decide
      · exact (Nat.log2_lt h.ne').2 hlt
    rw [hunits, hzero]
    omega
  · have hlog : n.units.log2 = 52 + n.scale := by
      have hge := hge hpos
      have hpow : 0 < 2 ^ n.scale := Nat.pow_pos (by decide)
      have hne : n.units ≠ 0 := by
        rw [units_eq]
        exact Nat.mul_ne_zero (by omega) hpow.ne'
      rw [Nat.log2_eq_iff hne, units_eq]
      constructor
      · rw [Nat.pow_add]
        exact Nat.mul_le_mul_right _ hge
      · rw [show 52 + n.scale + 1 = 53 + n.scale by omega, Nat.pow_add]
        exact Nat.mul_lt_mul_of_pos_right hlt hpow
    rw [hlog]
    omega

/-- The value of a finite number is rounded to it. -/
theorem ofQuotient_exact {n : Number} (hn : n.isFinite) {num den : Nat} (hden : 0 < den)
    (h : num * unitsPerOne = n.units * den) : ofQuotient num den = n.abs := by
  have hfinite : n.magnitude < infinityBits := of_decide_eq_true hn
  have hpow : 0 < Nat.pow 2 n.scale := Nat.pow_pos (by decide)
  have hwhole : nearestWhole (n.units * den) (den * Nat.pow 2 n.scale) = n.significand := by
    have hsplit : n.units * den = n.significand * (den * Nat.pow 2 n.scale) := by
      rw [units_eq]
      change n.significand * 2 ^ n.scale * den = n.significand * (den * 2 ^ n.scale)
      ring
    rw [hsplit, nearestWhole_mul _ (Nat.mul_pos hden hpow)]
  unfold ofQuotient
  dsimp only
  rw [h, Nat.mul_div_cancel _ hden, scaleFor_units, hwhole, ← magnitude_eq, if_pos hfinite]
  rfl

theorem abs_eq_self {n : Number} (h : n.isNegative = false) : n.abs = n := by
  have hlt : n.bits.toNat < signWeight := Nat.lt_of_not_le (of_decide_eq_false h)
  unfold abs magnitude
  rw [Nat.mod_eq_of_lt hlt, UInt64.ofNat_toNat]

/-- What digits write is never negative. -/
theorem ofDigits_isNegative (digits places : Nat) :
    (ofDigits digits places).isNegative = false := by
  have hle : ∀ pattern : Nat, (if pattern < infinityBits then pattern else infinityBits) <
      signWeight := fun pattern ↦ by
    have hinfinity : infinityBits < signWeight := by decide
    split <;> omega
  have hweight : signWeight < UInt64.size := by decide
  refine decide_eq_false (Nat.not_le.2 ?_)
  unfold ofDigits ofQuotient
  rw [UInt64.toNat_ofNat_of_lt' ((hle _).trans hweight)]
  exact hle _

end Number

end Lox
