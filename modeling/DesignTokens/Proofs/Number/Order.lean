import DesignTokens.Proofs.Number.Arithmetic

/-!
# Order of floats

Finite floats compare like the numbers that they denote, and every float that is
neither infinite nor no number denotes one.
-/

namespace DesignTokens
namespace Binary

open Float.Model Float.Model.UnpackedFloat

/-!
## Magnitudes
-/

/-- A larger exponent makes a larger number, since the mantissa then has all its digits. -/
theorem mul_two_zpow_lt_of_lt {m m' : Nat} {e e' : ℤ} (hm : m < 2 ^ 53) (hleast : -1074 ≤ e)
    (hnormal : 2 ^ 52 ≤ m' ∨ e' = -1074) (he : e < e') :
    (m : ℚ) * 2 ^ e < m' * 2 ^ e' := by
  have hm1 : (m : ℚ) < 2 ^ 53 := by exact_mod_cast hm
  have hm2 : (2 : ℚ) ^ 52 ≤ m' := by exact_mod_cast hnormal.resolve_right (by omega)
  calc (m : ℚ) * 2 ^ e < 2 ^ 53 * 2 ^ e := mul_lt_mul_of_pos_right hm1 (by positivity)
    _ = 2 ^ (((53 : ℕ) : ℤ) + e) := two_zpow_add 53 e
    _ ≤ 2 ^ (((52 : ℕ) : ℤ) + e') := zpow_le_zpow_right₀ (by norm_num) (by push_cast; omega)
    _ = 2 ^ 52 * 2 ^ e' := (two_zpow_add 52 e').symm
    _ ≤ m' * 2 ^ e' := mul_le_mul_of_nonneg_right hm2 (by positivity)

theorem compare_magnitude {m m' : Nat} {e e' : ℤ} (hm : m < 2 ^ 53) (hm' : m' < 2 ^ 53)
    (hleast : -1074 ≤ e) (hleast' : -1074 ≤ e') (hnormal : 2 ^ 52 ≤ m ∨ e = -1074)
    (hnormal' : 2 ^ 52 ≤ m' ∨ e' = -1074) :
    (compare e e').then (compare m m') = compare ((m : ℚ) * 2 ^ e) (m' * 2 ^ e') := by
  rcases lt_trichotomy e e' with hlt | rfl | hgt
  · rw [compare_lt_iff_lt.mpr hlt,
      compare_lt_iff_lt.mpr (mul_two_zpow_lt_of_lt hm hleast hnormal' hlt)]
    rfl
  · have hpos : (0 : ℚ) < 2 ^ e := by positivity
    rw [compare_eq_iff_eq.mpr rfl]
    rcases lt_trichotomy m m' with hlt | rfl | hgt
    · rw [compare_lt_iff_lt.mpr hlt, compare_lt_iff_lt.mpr]
      · rfl
      · exact mul_lt_mul_of_pos_right (by exact_mod_cast hlt) hpos
    · rw [compare_eq_iff_eq.mpr rfl, compare_eq_iff_eq.mpr rfl]
      rfl
    · rw [compare_gt_iff_gt.mpr hgt, compare_gt_iff_gt.mpr]
      · rfl
      · exact mul_lt_mul_of_pos_right (by exact_mod_cast hgt) hpos
  · rw [compare_gt_iff_gt.mpr hgt,
      compare_gt_iff_gt.mpr (mul_two_zpow_lt_of_lt hm' hleast' hnormal hgt)]
    rfl

theorem compare_neg_neg (a b : ℚ) : compare (-a) (-b) = (compare a b).swap := by
  rcases lt_trichotomy a b with hlt | rfl | hgt
  · rw [compare_lt_iff_lt.mpr hlt, compare_gt_iff_gt.mpr (neg_lt_neg hlt)]
    rfl
  · rw [compare_eq_iff_eq.mpr rfl, compare_eq_iff_eq.mpr rfl]
    rfl
  · rw [compare_gt_iff_gt.mpr hgt, compare_lt_iff_lt.mpr (neg_lt_neg hgt)]
    rfl

theorem Canonical.compare_eq {u v : UnpackedFloat} {a b : ℚ} (hu : Canonical u a)
    (hv : Canonical v b) : u.compare v = some (compare a b) := by
  cases hu with
  | zero s =>
      cases hv with
      | zero s' =>
          rw [compare_eq_iff_eq.mpr rfl]
          rfl
      | finite s' m' e' hm' hdigits' hleast' hnormal' =>
          have hpos' : (0 : ℚ) < m' * 2 ^ e' := by positivity
          cases s' with
          | negative =>
              exact (congrArg some (compare_gt_iff_gt.mpr (neg_lt_zero.mpr hpos'))).symm
          | positive =>
              exact (congrArg some (compare_lt_iff_lt.mpr hpos')).symm
  | finite s m e hm hdigits hleast hnormal =>
      have hpos : (0 : ℚ) < m * 2 ^ e := by positivity
      cases hv with
      | zero s' =>
          cases s with
          | negative =>
              exact (congrArg some (compare_lt_iff_lt.mpr (neg_lt_zero.mpr hpos))).symm
          | positive =>
              exact (congrArg some (compare_gt_iff_gt.mpr hpos)).symm
      | finite s' m' e' hm' hdigits' hleast' hnormal' =>
          have hpos' : (0 : ℚ) < m' * 2 ^ e' := by positivity
          have hmagnitude := compare_magnitude hdigits hdigits' hleast hleast' hnormal hnormal'
          cases s with
          | negative =>
              cases s' with
              | negative =>
                  unfold UnpackedFloat.compare withSign
                  dsimp only
                  rw [hmagnitude, compare_neg_neg]
              | positive =>
                  have hlt := (neg_lt_zero.mpr hpos).trans hpos'
                  exact (congrArg some (compare_lt_iff_lt.mpr hlt)).symm
          | positive =>
              cases s' with
              | negative =>
                  have hlt := (neg_lt_zero.mpr hpos').trans hpos
                  exact (congrArg some (compare_gt_iff_gt.mpr hlt)).symm
              | positive =>
                  unfold UnpackedFloat.compare withSign
                  dsimp only
                  rw [hmagnitude]

theorem eq_of_mul_two_zpow_eq {m m' : Nat} {e e' : ℤ} (hm : m < 2 ^ 53) (hm' : m' < 2 ^ 53)
    (hleast : -1074 ≤ e) (hleast' : -1074 ≤ e') (hnormal : 2 ^ 52 ≤ m ∨ e = -1074)
    (hnormal' : 2 ^ 52 ≤ m' ∨ e' = -1074) (h : (m : ℚ) * 2 ^ e = m' * 2 ^ e') :
    m = m' ∧ e = e' := by
  rcases lt_trichotomy e e' with hlt | rfl | hgt
  · exact absurd h (mul_two_zpow_lt_of_lt hm hleast hnormal' hlt).ne
  · have hpos : (0 : ℚ) < 2 ^ e := by positivity
    exact ⟨by exact_mod_cast mul_right_cancel₀ hpos.ne' h, rfl⟩
  · exact absurd h (mul_two_zpow_lt_of_lt hm' hleast' hnormal hgt).ne'

theorem Canonical.unique {u v : UnpackedFloat} {a b : ℚ} (hu : Canonical u a)
    (hv : Canonical v b) (hab : a = b) (ha : a ≠ 0) : u = v := by
  cases hu with
  | zero s => exact absurd rfl ha
  | finite s m e hm hdigits hleast hnormal =>
      have hpos : (0 : ℚ) < m * 2 ^ e := by positivity
      cases hv with
      | zero s' => exact absurd hab ha
      | finite s' m' e' hm' hdigits' hleast' hnormal' =>
          have hpos' : (0 : ℚ) < m' * 2 ^ e' := by positivity
          have hmagnitude : (m : ℚ) * 2 ^ e = m' * 2 ^ e' := by
            calc (m : ℚ) * 2 ^ e = |withSign s (m * 2 ^ e)| := by
                  rw [abs_withSign, abs_of_pos hpos]
              _ = |withSign s' (m' * 2 ^ e')| := by rw [hab]
              _ = m' * 2 ^ e' := by rw [abs_withSign, abs_of_pos hpos']
          have hsign : s = s' := by
            cases s <;> cases s' <;> simp only [withSign] at hab <;> first | rfl | linarith
          have hparts :=
            eq_of_mul_two_zpow_eq hdigits hdigits' hleast hleast' hnormal hnormal' hmagnitude
          rcases hparts with ⟨rfl, rfl⟩
          rw [hsign]

namespace Denotes

variable {x y : Float} {a b : ℚ}

theorem lt_iff (hx : Denotes x a) (hy : Denotes y b) : x < y ↔ a < b := by
  change decide (x.toModel.unpack.lt y.toModel.unpack = true) = true ↔ a < b
  rw [decide_eq_true_iff, UnpackedFloat.lt, hx.1.compare_eq hy.1, ← compare_lt_iff_lt]
  cases compare a b <;> decide

theorem le_iff (hx : Denotes x a) (hy : Denotes y b) : x ≤ y ↔ a ≤ b := by
  change decide (x.toModel.unpack.le y.toModel.unpack = true) = true ↔ a ≤ b
  rw [decide_eq_true_iff, UnpackedFloat.le, hx.1.compare_eq hy.1, ← compare_le_iff_le]
  cases compare a b <;> decide

theorem beq_iff (hx : Denotes x a) (hy : Denotes y b) : (x == y) = true ↔ a = b := by
  change x.toModel.unpack.beq y.toModel.unpack = true ↔ a = b
  unfold UnpackedFloat.beq
  rw [hx.1.compare_eq hy.1, ← compare_eq_iff_eq (a := a)]
  cases compare a b <;> decide

end Denotes

theorem exists_denotes {x : Float} (hnan : x.isNaN = false) (hinf : x.isInf = false) :
    ∃ a, Denotes x a := by
  have hcases := unpack_cases x.toModel.toBits.toBitVec
  change (_ ∧ x.toModel.unpack = _) ∨ _ ∧ ∃ q, Canonical x.toModel.unpack q ∧ _ at hcases
  rcases hcases with ⟨_, hunpack⟩ | ⟨_, q, hcanonical, hq⟩
  · exfalso
    change x.toModel.unpack.isNaN = false at hnan
    change x.toModel.unpack.isInf = false at hinf
    rw [hunpack] at hnan hinf
    split at hnan
    · rename_i hfraction
      rw [if_pos hfraction] at hinf
      cases hinf
    · cases hnan
  · exact ⟨q, hcanonical, hq⟩

theorem Canonical.isFinite_of_le {u v w : UnpackedFloat} {a b : ℚ} (hv : Canonical v a)
    (hw : Canonical w b) (hlow : v.le u = true) (hhigh : u.le w = true) :
    u.isNaN = false ∧ u.isInf = false := by
  cases u with
  | notANumber => cases hhigh
  | zero s => exact ⟨rfl, rfl⟩
  | finite s m e hm => exact ⟨rfl, rfl⟩
  | infinity s =>
      cases s with
      | negative => cases hv <;> cases hlow
      | positive => cases hw <;> cases hhigh

theorem Denotes.exists_between {x y z : Float} {a b : ℚ} (hx : Denotes x a) (hz : Denotes z b)
    (hlow : x ≤ y) (hhigh : y ≤ z) : ∃ c, Denotes y c := by
  have hlow' : x.toModel.unpack.le y.toModel.unpack = true := of_decide_eq_true hlow
  have hhigh' : y.toModel.unpack.le z.toModel.unpack = true := of_decide_eq_true hhigh
  rcases hx.1.isFinite_of_le hz.1 hlow' hhigh' with ⟨hnan, hinf⟩
  exact exists_denotes hnan hinf

theorem Denotes.isNaN_eq {x : Float} {a : ℚ} (h : Denotes x a) : x.isNaN = false := by
  have hcanonical := h.1
  change x.toModel.unpack.isNaN = false
  generalize x.toModel.unpack = u at hcanonical ⊢
  cases hcanonical <;> rfl

theorem Denotes.isInf_eq {x : Float} {a : ℚ} (h : Denotes x a) : x.isInf = false := by
  have hcanonical := h.1
  change x.toModel.unpack.isInf = false
  generalize x.toModel.unpack = u at hcanonical ⊢
  cases hcanonical <;> rfl

end Binary
end DesignTokens
