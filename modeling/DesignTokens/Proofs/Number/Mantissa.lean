import DesignTokens.Proofs.Number.Grid

/-!
# Rounding of mantissas

Core computes on floats with a mantissa, an exponent and two bits for what was cut
off. Shifting keeps track of the exact number, and rounding in the end gives the
nearest point of the grid.
-/

namespace DesignTokens
namespace Binary

open Float.Model Float.Model.UnpackedFloat

theorem isNearestInteger_of_le_half {k : ℤ} {z : ℚ} (h : |z - k| ≤ 1 / 2) :
    IsNearestInteger k z := by
  intro j
  by_cases hj : j = k
  · rw [hj]
  · have hgap : (1 : ℚ) ≤ |(k : ℚ) - j| := by
      have hone : 1 ≤ |k - j| := Int.one_le_abs (by omega)
      exact_mod_cast hone
    have htriangle : |(k : ℚ) - j| ≤ |z - k| + |z - j| := by
      have habs := abs_sub_le (k : ℚ) z j
      rwa [abs_sub_comm (k : ℚ) z] at habs
    linarith

/-!
## What is cut off

A mantissa is kept with two bits that tell how the digits that were cut off compare with a
half.
-/

/-- Whether a mantissa with its two bits stands for a number. -/
def Approximates (em : ExtendedMantissa) (z : ℚ) : Prop :=
  match em.roundBit, em.stickyBit with
  | false, false => z = em.mantissa
  | false, true => em.mantissa < z ∧ z < em.mantissa + 1 / 2
  | true, false => z = em.mantissa + 1 / 2
  | true, true => em.mantissa + 1 / 2 < z ∧ z < em.mantissa + 1

namespace Approximates

variable {em : ExtendedMantissa} {z : ℚ}

theorem bounds (h : Approximates em z) : em.mantissa ≤ z ∧ z < em.mantissa + 1 := by
  unfold Approximates at h
  split at h
  · exact ⟨by linarith, by linarith⟩
  · exact ⟨by linarith [h.1], by linarith [h.2]⟩
  · exact ⟨by linarith, by linarith⟩
  · exact ⟨by linarith [h.1], h.2⟩

theorem exact (m : Nat) : Approximates (.ofMantissaAndAccuracy m .exact) m :=
  rfl

theorem shiftRightOne (h : Approximates em z) : Approximates em.shiftRightOne (z / 2) := by
  rcases em with ⟨m, roundBit, stickyBit⟩
  rcases Nat.even_or_odd' m with ⟨n, rfl | rfl⟩
  · have hhalf : 2 * n / 2 = n := by omega
    have hbit : 2 * n % 2 = 0 := by omega
    cases roundBit <;> cases stickyBit
    all_goals
      simp only [Approximates, ExtendedMantissa.shiftRightOne, hhalf, hbit] at h ⊢
      push_cast at h
    · exact (by linarith : z / 2 = n)
    · exact ⟨by linarith [h.1], by linarith [h.2]⟩
    · exact ⟨by linarith, by linarith⟩
    · exact ⟨by linarith [h.1], by linarith [h.2]⟩
  · have hhalf : (2 * n + 1) / 2 = n := by omega
    have hbit : (2 * n + 1) % 2 = 1 := by omega
    cases roundBit <;> cases stickyBit
    all_goals
      simp only [Approximates, ExtendedMantissa.shiftRightOne, hhalf, hbit] at h ⊢
      push_cast at h
    · exact (by linarith : z / 2 = n + 1 / 2)
    · exact ⟨by linarith [h.1], by linarith [h.2]⟩
    · exact ⟨by linarith, by linarith⟩
    · exact ⟨by linarith [h.1], by linarith [h.2]⟩

theorem shiftRight (h : Approximates em z) (n : Nat) : Approximates (em >>> n) (z / 2 ^ n) := by
  change Approximates (n.repeat ExtendedMantissa.shiftRightOne em) _
  induction n with
  | zero => simpa [Nat.repeat] using h
  | succ n ih =>
      have hone := ih.shiftRightOne
      rwa [div_div, ← pow_succ] at hone

theorem isNearestInteger (h : Approximates em z) : IsNearestInteger em.roundedMantissa z := by
  apply isNearestInteger_of_le_half
  rcases em with ⟨m, roundBit, stickyBit⟩
  cases roundBit <;> cases stickyBit
  · have hz : z = m := h
    rw [hz]
    simp [ExtendedMantissa.roundedMantissa, ExtendedMantissa.accuracy,
      Accuracy.roundToNearestEven]
  · have hz : (m : ℚ) < z ∧ z < m + 1 / 2 := h
    change |z - ((m : ℤ) : ℚ)| ≤ 1 / 2
    rw [Int.cast_natCast, abs_of_nonneg (by linarith [hz.1])]
    linarith [hz.2]
  · have hz : z = m + 1 / 2 := h
    change |z - ((m + m % 2 : ℕ) : ℤ)| ≤ 1 / 2
    rcases Nat.mod_two_eq_zero_or_one m with hbit | hbit
    · rw [hbit, hz, abs_of_nonneg] <;> push_cast <;> linarith
    · rw [hbit, hz, abs_of_nonpos] <;> push_cast <;> linarith
  · have hz : (m : ℚ) + 1 / 2 < z ∧ z < m + 1 := h
    change |z - ((m + 1 : ℕ) : ℤ)| ≤ 1 / 2
    push_cast
    rw [abs_of_nonpos (by linarith [hz.2])]
    linarith [hz.1]

end Approximates
/-!
## The scale
-/

theorem targetExponent_eq (total : ℤ) :
    Format.binary64.targetExponent total = max (total - 53) (-1074) :=
  rfl

theorem two_zpow_add (a : Nat) (t : ℤ) : (2 : ℚ) ^ a * 2 ^ t = 2 ^ (a + t) := by
  rw [← zpow_natCast, ← zpow_add₀ (by norm_num)]

/-- The exponent that core aims at is the scale of the number. -/
theorem isScale_targetExponent {m : Nat} {e : ℤ} {q : ℚ} (hlow : m * 2 ^ e ≤ q)
    (hup : q < (m + 1) * 2 ^ e)
    (he : e ≤ Format.binary64.targetExponent (totalExponent m e)) :
    IsScale (Format.binary64.targetExponent (totalExponent m e)) q := by
  rw [targetExponent_eq] at he ⊢
  have hpos : (0 : ℚ) < 2 ^ e := by positivity
  have hm : (m : ℚ) + 1 ≤ 2 ^ (m.log2 + 1) := by exact_mod_cast Nat.lt_log2_self
  refine ⟨le_max_right _ _, ?_, ?_⟩
  · calc q < (m + 1) * 2 ^ e := hup
      _ ≤ 2 ^ (m.log2 + 1) * 2 ^ e := mul_le_mul_of_nonneg_right hm hpos.le
      _ = 2 ^ (((m.log2 + 1 : ℕ) : ℤ) + e) := two_zpow_add _ _
      _ ≤ 2 ^ (((53 : ℕ) : ℤ) + max (totalExponent m e - 53) (-1074)) := by
          apply zpow_le_zpow_right₀ (by norm_num)
          unfold totalExponent
          push_cast
          omega
      _ = 2 ^ 53 * 2 ^ max (totalExponent m e - 53) (-1074) := (two_zpow_add _ _).symm
  · by_cases hleast : max (totalExponent m e - 53) (-1074) = -1074
    · exact .inl hleast
    · refine .inr ?_
      have hne : m ≠ 0 := by
        rintro rfl
        unfold totalExponent at he hleast
        simp only [Nat.log2_zero] at he hleast
        omega
      have hm' : (2 : ℚ) ^ m.log2 ≤ m := by exact_mod_cast Nat.log2_self_le hne
      calc (2 : ℚ) ^ 52 * 2 ^ max (totalExponent m e - 53) (-1074) =
            2 ^ (((52 : ℕ) : ℤ) + max (totalExponent m e - 53) (-1074)) := two_zpow_add _ _
        _ = 2 ^ ((m.log2 : ℤ) + e) := by
            congr 1
            unfold totalExponent at hleast ⊢
            push_cast
            omega
        _ = 2 ^ m.log2 * 2 ^ e := (two_zpow_add _ _).symm
        _ ≤ m * 2 ^ e := mul_le_mul_of_nonneg_right hm' hpos.le
        _ ≤ q := hlow

/-!
## Canonical floats
-/

def withSign : Sign → ℚ → ℚ
  | .negative, q => -q
  | .positive, q => q

/--
An unpacked float in its one canonical form, with the number that it denotes: the
exponent is as small as 53 digits allow.
-/
inductive Canonical : UnpackedFloat → ℚ → Prop where
  | zero (s : Sign) : Canonical (.zero s) 0
  | finite (s : Sign) (m : Nat) (e : ℤ) (hm : 0 < m) (hdigits : m < 2 ^ 53) (hleast : -1074 ≤ e)
      (hnormal : 2 ^ 52 ≤ m ∨ e = -1074) :
      Canonical (.finite s m e hm) (withSign s (m * 2 ^ e))

theorem IsOnGrid.withSign {q : ℚ} (s : Sign) (h : IsOnGrid q) : IsOnGrid (withSign s q) := by
  cases s with
  | negative => exact h.neg
  | positive => exact h

theorem IsNearest.withSign {r q : ℚ} (s : Sign) (h : IsNearest r q) :
    IsNearest (withSign s r) (withSign s q) := by
  cases s with
  | negative => exact h.neg
  | positive => exact h

theorem Canonical.isOnGrid {u : UnpackedFloat} {q : ℚ} (h : Canonical u q) : IsOnGrid q := by
  cases h with
  | zero s => exact isOnGrid_intCast (n := 0) (by decide)
  | finite s m e hm hdigits hleast hnormal =>
      apply IsOnGrid.withSign
      refine ⟨m, e, ?_, hleast, by push_cast; rfl⟩
      rw [abs_of_nonneg (by omega)]
      exact_mod_cast hdigits.le

theorem shift_of_lt {m : Nat} {e : ℤ} (hm : m < 2 ^ 53) (he : -1074 ≤ e) :
    shiftToTargetExponent Format.binary64 m e .exact = (⟨m, false, false⟩, e) := by
  have hlog : m.log2 ≤ 52 := by
    by_cases hzero : m = 0
    · rw [hzero]
      decide
    · have hlt := (Nat.log2_lt hzero).mpr hm
      omega
  have hshift : (Format.binary64.targetExponent (totalExponent m e) - e).toNat = 0 := by
    rw [targetExponent_eq]
    unfold totalExponent
    omega
  simp only [shiftToTargetExponent, shiftToExponent, hshift, Int.natCast_zero, Int.add_zero]
  rfl

theorem shift_of_eq {e : ℤ} (he : -1074 ≤ e) :
    shiftToTargetExponent Format.binary64 (2 ^ 53) e .exact =
      (⟨2 ^ 52, false, false⟩, e + 1) := by
  have hshift : (Format.binary64.targetExponent (totalExponent (2 ^ 53) e) - e).toNat = 1 := by
    rw [targetExponent_eq]
    unfold totalExponent
    rw [Nat.log2_two_pow]
    omega
  simp only [shiftToTargetExponent, shiftToExponent, hshift]
  rfl

/-- The second shift of a rounding: the mantissa is exact and has at most 53 digits or is 2^53. -/
theorem canonical_shift (s : Sign) {k : Nat} {t : ℤ} (hk : k ≤ 2 ^ 53) (ht : -1074 ≤ t)
    (hnormal : t = -1074 ∨ 2 ^ 52 ≤ k) :
    let shifted := shiftToTargetExponent Format.binary64 k t .exact
    Canonical
      (if h : shifted.1.mantissa = 0 then .zero s
        else .finite s shifted.1.mantissa shifted.2 (Nat.pos_of_ne_zero h))
      (withSign s (k * 2 ^ t)) := by
  intro shifted
  rcases Nat.lt_or_eq_of_le hk with hlt | rfl
  · have hshifted : shifted = (⟨k, false, false⟩, t) := shift_of_lt hlt ht
    rw [hshifted]
    by_cases hzero : k = 0
    · subst hzero
      rw [dif_pos rfl, Nat.cast_zero, zero_mul]
      cases s <;> simpa [withSign] using Canonical.zero _
    · rw [dif_neg hzero]
      exact .finite s k t _ hlt ht hnormal.symm
  · have hshifted : shifted = (⟨2 ^ 52, false, false⟩, t + 1) := shift_of_eq ht
    have hvalue : ((2 ^ 53 : Nat) : ℚ) * 2 ^ t = ((2 ^ 52 : Nat) : ℚ) * 2 ^ (t + 1) := by
      rw [zpow_add_one₀ (by norm_num)]
      push_cast
      ring
    rw [hshifted, hvalue, dif_neg (by norm_num)]
    exact .finite s (2 ^ 52) (t + 1) _ (by decide) (by omega) (.inl le_rfl)

/-- Rounding gives the canonical form of the nearest point of the grid. -/
theorem canonical_roundWithAccuracy (s : Sign) {m : Nat} {e : ℤ} {accuracy : Accuracy} {q : ℚ}
    (hq : Approximates (.ofMantissaAndAccuracy m accuracy) (q / 2 ^ e))
    (he : e ≤ Format.binary64.targetExponent (totalExponent m e)) :
    ∃ r, IsNearest r q ∧
      Canonical (roundWithAccuracy Format.binary64 s m e accuracy) (withSign s r) := by
  have hpos : (0 : ℚ) < 2 ^ e := by positivity
  have hmantissa : (ExtendedMantissa.ofMantissaAndAccuracy m accuracy).mantissa = m := by
    cases accuracy with
    | exact => rfl
    | inexact order => cases order <;> rfl
  rcases hq.bounds with ⟨hlow, hup⟩
  rw [hmantissa] at hlow hup
  rw [le_div_iff₀ hpos] at hlow
  rw [div_lt_iff₀ hpos] at hup
  have hscale := isScale_targetExponent hlow hup he
  generalize htarget : Format.binary64.targetExponent (totalExponent m e) = t at he hscale
  have hnonneg : 0 ≤ q := le_trans (by positivity) hlow
  have hexponent : e + ((t - e).toNat : ℤ) = t := by omega
  -- the first shift brings the mantissa to the scale of the number
  have hfirst :
      Approximates (ExtendedMantissa.ofMantissaAndAccuracy m accuracy >>> (t - e).toNat)
        (q / 2 ^ t) := by
    have hshift := hq.shiftRight (t - e).toNat
    rwa [div_div, ← zpow_natCast, ← zpow_add₀ (by norm_num), hexponent] at hshift
  generalize hem : (ExtendedMantissa.ofMantissaAndAccuracy m accuracy >>> (t - e).toNat) = em
    at hfirst
  have hk := hfirst.isNearestInteger
  refine ⟨_, hscale.isNearest hnonneg hk, ?_⟩
  have hround : shiftToTargetExponent Format.binary64 m e accuracy = (em, t) := by
    simp only [shiftToTargetExponent, shiftToExponent, htarget, hem, hexponent]
  have hcanonical := canonical_shift s (k := em.roundedMantissa) (t := t)
    (by exact_mod_cast hscale.le_digits hk) hscale.least
    (by exact_mod_cast hscale.digits_le hk)
  unfold roundWithAccuracy
  rw [hround]
  exact hcanonical

end Binary
end DesignTokens
