import DesignTokens.Proofs.Number.Packing
import Mathlib.Tactic.FieldSimp

/-!
# Arithmetic of floats

The result of an operation on finite floats denotes the point of the grid nearest to
the exact result, as long as this is below the bound. Floats compare like the numbers
that they denote.
-/

namespace DesignTokens
namespace Binary

open Float.Model Float.Model.UnpackedFloat

/-!
## Normal forms
-/

theorem value_decreaseExponent (m : Nat) (e t : ℤ) :
    ((decreaseExponent m e t).1 : ℚ) * 2 ^ (decreaseExponent m e t).2 = m * 2 ^ e := by
  simp only [decreaseExponent, Nat.shiftLeft_eq]
  push_cast
  rw [mul_assoc, two_zpow_add]
  congr 2
  omega

theorem log2_shiftLeft {m : Nat} (hm : 0 < m) (k : Nat) : (m <<< k).log2 = m.log2 + k := by
  have hpos : 0 < 2 ^ k := by positivity
  have hlow := Nat.log2_self_le hm.ne'
  have hup := Nat.lt_log2_self (n := m)
  rw [Nat.shiftLeft_eq, Nat.log2_eq_iff (by positivity)]
  constructor
  · rw [pow_add]
    exact Nat.mul_le_mul_right _ hlow
  · rw [show m.log2 + k + 1 = m.log2 + 1 + k by ring, pow_add]
    exact Nat.mul_lt_mul_of_pos_right hup hpos

theorem canonical_round (s : Sign) {m : Nat} (hm : 0 < m) (e : ℤ) :
    ∃ r, IsNearest r (m * 2 ^ e) ∧
      Canonical (UnpackedFloat.round Format.binary64 s m e) (withSign s r) := by
  generalize ht : Format.binary64.targetExponent (totalExponent m e) = t
  have hvalue := value_decreaseExponent m e t
  generalize hn : (decreaseExponent m e t).1 = n at hvalue
  generalize hd : (decreaseExponent m e t).2 = d at hvalue
  have hpos : (0 : ℚ) < 2 ^ d := by positivity
  have hround : UnpackedFloat.round Format.binary64 s m e =
      roundWithAccuracy Format.binary64 s n d .exact := by
    simp only [UnpackedFloat.round, ht, hn, hd]
  have hlog : n.log2 = m.log2 + (e - t).toNat := by
    rw [← hn]
    simp only [decreaseExponent]
    exact log2_shiftLeft hm _
  have htotal : totalExponent n d = totalExponent m e := by
    have hdiff : d = e - (e - t).toNat := by rw [← hd]; rfl
    unfold totalExponent
    rw [hlog, hdiff]
    push_cast
    ring
  rw [hround, ← hvalue]
  apply canonical_roundWithAccuracy
  · rw [mul_div_cancel_right₀ _ hpos.ne']
    exact Approximates.exact n
  · rw [htotal, ht, ← hd]
    simp only [decreaseExponent]
    omega

theorem canonical_normalize (m : ℤ) (e : ℤ) (s : Sign) :
    ∃ r, IsNearest r (m * 2 ^ e) ∧
      Canonical (UnpackedFloat.normalize Format.binary64 m e s) r := by
  unfold UnpackedFloat.normalize
  rcases lt_trichotomy m 0 with hlt | rfl | hgt
  · obtain ⟨r, hr, hcanonical⟩ := canonical_round .negative (m := (-m).toNat) (by omega) e
    have hm : (((-m).toNat : ℕ) : ℚ) = -(m : ℚ) := by
      have hcast : (((-m).toNat : ℕ) : ℤ) = -m := by omega
      exact_mod_cast hcast
    rw [Int.compare_eq_lt.mpr hlt]
    refine ⟨-r, ?_, hcanonical⟩
    have hneg := hr.neg
    rwa [hm, neg_mul, neg_neg] at hneg
  · refine ⟨0, ?_, .zero s⟩
    rw [Int.cast_zero, zero_mul]
    exact .of_isOnGrid (isOnGrid_intCast (n := 0) (by decide))
  · obtain ⟨r, hr, hcanonical⟩ := canonical_round .positive (m := m.toNat) (by omega) e
    have hm : ((m.toNat : ℕ) : ℚ) = m := by
      have hcast : ((m.toNat : ℕ) : ℤ) = m := by omega
      exact_mod_cast hcast
    rw [Int.compare_eq_gt.mpr hgt]
    rw [hm] at hr
    exact ⟨r, hr, hcanonical⟩

theorem cast_apply (s : Sign) (n : ℤ) : ((s.apply n : ℤ) : ℚ) = withSign s n := by
  cases s with
  | negative => exact Int.cast_neg n
  | positive => rfl

theorem withSign_mul (s : Sign) (q p : ℚ) : withSign s q * p = withSign s (q * p) := by
  cases s with
  | negative => exact neg_mul q p
  | positive => rfl

theorem value_aligned (s : Sign) (m : Nat) {e t : ℤ} (ht : t ≤ e) :
    ((s.apply ((decreaseExponent m e t).1 : ℤ) : ℤ) : ℚ) * 2 ^ t = withSign s (m * 2 ^ e) := by
  have hvalue := value_decreaseExponent m e t
  have hd : (decreaseExponent m e t).2 = t := by
    simp only [decreaseExponent]
    omega
  rw [hd] at hvalue
  rw [cast_apply, withSign_mul, Int.cast_natCast, hvalue]

/-!
## Operations on canonical floats
-/

theorem Canonical.neg {u : UnpackedFloat} {a : ℚ} (h : Canonical u a) : Canonical u.neg (-a) := by
  cases h with
  | zero s =>
      rw [neg_zero]
      exact .zero _
  | finite s m e hm hdigits hleast hnormal =>
      have hneg := Canonical.finite (-s) m e hm hdigits hleast hnormal
      cases s with
      | negative =>
          rw [withSign, neg_neg]
          exact hneg
      | positive => exact hneg

theorem Canonical.add {u v : UnpackedFloat} {a b : ℚ} (hu : Canonical u a) (hv : Canonical v b) :
    ∃ r, IsNearest r (a + b) ∧ Canonical (UnpackedFloat.add Format.binary64 u v) r := by
  have hb := IsNearest.of_isOnGrid hv.isOnGrid
  have ha := IsNearest.of_isOnGrid hu.isOnGrid
  cases hu with
  | zero s =>
      rw [zero_add]
      cases hv with
      | zero s' =>
          refine ⟨0, hb, ?_⟩
          cases s <;> cases s' <;> exact .zero _
      | finite s' m' e' hm' hdigits' hleast' hnormal' =>
          exact ⟨_, hb, .finite s' m' e' hm' hdigits' hleast' hnormal'⟩
  | finite s m e hm hdigits hleast hnormal =>
      cases hv with
      | zero s' =>
          rw [add_zero]
          exact ⟨_, ha, .finite s m e hm hdigits hleast hnormal⟩
      | finite s' m' e' hm' hdigits' hleast' hnormal' =>
          have hsum := canonical_normalize
            (s.apply ((decreaseExponent m e (min e e')).1 : ℤ) +
              s'.apply ((decreaseExponent m' e' (min e e')).1 : ℤ)) (min e e') .positive
          rw [Int.cast_add, add_mul, value_aligned s m (min_le_left e e'),
            value_aligned s' m' (min_le_right e e')] at hsum
          exact hsum

theorem sub_eq_add (u v : UnpackedFloat) :
    UnpackedFloat.sub Format.binary64 u v = UnpackedFloat.add Format.binary64 u v.neg := by
  cases u with
  | zero s =>
      cases v <;> rfl
  | finite s m e hm =>
      cases v with
      | finite s' m' e' hm' =>
          have happly : ∀ n : ℤ, (-s').apply n = -s'.apply n := by
            intro n
            cases s'
            · exact (neg_neg n).symm
            · rfl
          unfold UnpackedFloat.sub UnpackedFloat.add UnpackedFloat.neg
          dsimp only
          rw [happly]
          rfl
      | _ => rfl
  | _ => cases v <;> rfl

theorem Canonical.sub {u v : UnpackedFloat} {a b : ℚ} (hu : Canonical u a) (hv : Canonical v b) :
    ∃ r, IsNearest r (a - b) ∧ Canonical (UnpackedFloat.sub Format.binary64 u v) r := by
  rw [sub_eq_add, sub_eq_add_neg]
  exact hu.add hv.neg

theorem withSign_mul_withSign (s s' : Sign) (a b : ℚ) :
    withSign s a * withSign s' b = withSign (s * s') (a * b) := by
  cases s <;> cases s' <;> simp [withSign]

theorem withSign_div_withSign (s s' : Sign) (a b : ℚ) :
    withSign s a / withSign s' b = withSign (s / s') (a / b) := by
  cases s <;> cases s' <;> simp [withSign, neg_div, div_neg] <;> rfl

theorem exponent_le_target_mul {m m' : Nat} {e e' : ℤ} (hm : 0 < m) (hm' : 0 < m')
    (hnormal : 2 ^ 52 ≤ m ∨ e = -1074) (hnormal' : 2 ^ 52 ≤ m' ∨ e' = -1074) :
    e + e' ≤ Format.binary64.targetExponent (totalExponent (m * m') (e + e')) := by
  rw [targetExponent_eq]
  unfold totalExponent
  by_cases hlarge : 2 ^ 52 ≤ m * m'
  · have hlog := (Nat.le_log2 (Nat.mul_pos hm hm').ne').mpr hlarge
    omega
  · have h1 : m ≤ m * m' := Nat.le_mul_of_pos_right m hm'
    have h2 : m' ≤ m * m' := Nat.le_mul_of_pos_left m' hm
    have he : e = -1074 := hnormal.resolve_left (by omega)
    have he' : e' = -1074 := hnormal'.resolve_left (by omega)
    omega

theorem Canonical.mul {u v : UnpackedFloat} {a b : ℚ} (hu : Canonical u a) (hv : Canonical v b) :
    ∃ r, IsNearest r (a * b) ∧ Canonical (UnpackedFloat.mul Format.binary64 u v) r := by
  have hzero : IsNearest 0 0 := .of_isOnGrid (isOnGrid_intCast (n := 0) (by decide))
  cases hu with
  | zero s =>
      rw [zero_mul]
      cases hv with
      | zero s' => exact ⟨0, hzero, .zero _⟩
      | finite s' m' e' hm' _ _ _ => exact ⟨0, hzero, .zero _⟩
  | finite s m e hm hdigits hleast hnormal =>
      cases hv with
      | zero s' =>
          rw [mul_zero]
          exact ⟨0, hzero, .zero _⟩
      | finite s' m' e' hm' hdigits' hleast' hnormal' =>
          have hpos : (0 : ℚ) < 2 ^ (e + e') := by positivity
          have hvalue : ((m * m' : ℕ) : ℚ) * 2 ^ (e + e') = m * 2 ^ e * (m' * 2 ^ e') := by
            rw [zpow_add₀ (by norm_num)]
            push_cast
            ring
          have happroximates : Approximates (.ofMantissaAndAccuracy (m * m') .exact)
              (((m * m' : ℕ) : ℚ) * 2 ^ (e + e') / 2 ^ (e + e')) := by
            rw [mul_div_cancel_right₀ _ hpos.ne']
            exact Approximates.exact _
          obtain ⟨r, hr, hcanonical⟩ := canonical_roundWithAccuracy (s * s') happroximates
            (exponent_le_target_mul hm hm' hnormal hnormal')
          rw [hvalue] at hr
          refine ⟨withSign (s * s') r, ?_, hcanonical⟩
          rw [withSign_mul_withSign]
          exact hr.withSign _

/-!
## Division
-/

theorem approximates_accuracyOfFraction (n : Nat) {r den : Nat} (hr : r < den) :
    Approximates (.ofMantissaAndAccuracy n (accuracyOfFraction r den)) (n + r / den) := by
  have hden : (0 : ℚ) < den := by exact_mod_cast Nat.zero_lt_of_lt hr
  have hr' : (r : ℚ) / den < 1 := by
    rw [div_lt_one hden]
    exact_mod_cast hr
  unfold accuracyOfFraction
  by_cases hzero : r = 0
  · rw [if_pos hzero, hzero, Nat.cast_zero, zero_div, add_zero]
    exact Approximates.exact n
  · have hpos : (0 : ℚ) < r / den := by
      have hr0 : (0 : ℚ) < r := by exact_mod_cast Nat.pos_of_ne_zero hzero
      positivity
    rw [if_neg hzero]
    rcases Nat.lt_trichotomy (2 * r) den with hlt | heq | hgt
    · have hhalf : (r : ℚ) / den < 1 / 2 := by
        rw [div_lt_div_iff₀ hden (by norm_num)]
        have hlt' : (2 : ℚ) * r < den := by exact_mod_cast hlt
        linarith
      rw [Nat.compare_eq_lt.mpr hlt]
      exact ⟨by simpa [ExtendedMantissa.ofMantissaAndAccuracy] using hpos,
        by simpa [ExtendedMantissa.ofMantissaAndAccuracy] using hhalf⟩
    · have hhalf : (r : ℚ) / den = 1 / 2 := by
        rw [div_eq_div_iff hden.ne' (by norm_num)]
        have heq' : (2 : ℚ) * r = den := by exact_mod_cast heq
        linarith
      rw [Nat.compare_eq_eq.mpr heq, hhalf]
      exact rfl
    · have hhalf : 1 / 2 < (r : ℚ) / den := by
        rw [div_lt_div_iff₀ (by norm_num) hden]
        have hgt' : (den : ℚ) < 2 * r := by exact_mod_cast hgt
        linarith
      rw [Nat.compare_eq_gt.mpr hgt]
      exact ⟨by simpa [ExtendedMantissa.ofMantissaAndAccuracy] using hhalf,
        by simpa [ExtendedMantissa.ofMantissaAndAccuracy] using hr'⟩

theorem approximates_quotient (num : Nat) {den : Nat} (hden : 0 < den) :
    Approximates
      (.ofMantissaAndAccuracy (num / den) (accuracyOfFraction (num % den) den)) (num / den) := by
  have hden' : (den : ℚ) ≠ 0 := by exact_mod_cast hden.ne'
  have hsplit : (num : ℚ) / den = (num / den : ℕ) + (num % den : ℕ) / den := by
    have hnat : (den : ℚ) * (num / den : ℕ) + (num % den : ℕ) = num := by
      exact_mod_cast Nat.div_add_mod num den
    rw [eq_comm, ← hnat, add_div, mul_div_cancel_left₀ _ hden']
  rw [hsplit]
  exact approximates_accuracyOfFraction _ (Nat.mod_lt _ hden)

theorem le_target_div {m m' : Nat} {e e' t : ℤ} (hm : 0 < m) (hm' : 0 < m')
    (ht : t = min (e - e') (max (totalExponent m e - totalExponent m' e' - 53) (-1074))) :
    t ≤ Format.binary64.targetExponent
      (totalExponent ((m <<< (e - e' - t).toNat) / m') t) := by
  rw [targetExponent_eq]
  by_cases hleast : t ≤ -1074
  · omega
  · -- the quotient has 53 digits at least
    have hgap : m'.log2 + 53 ≤ m.log2 + (e - e' - t).toNat := by
      unfold totalExponent at ht
      omega
    have hquotient : 2 ^ 52 ≤ (m <<< (e - e' - t).toNat) / m' := by
      rw [Nat.le_div_iff_mul_le hm', Nat.shiftLeft_eq]
      calc 2 ^ 52 * m' ≤ 2 ^ 52 * 2 ^ (m'.log2 + 1) :=
            Nat.mul_le_mul_left _ Nat.lt_log2_self.le
        _ = 2 ^ (m'.log2 + 53) := by
            rw [← pow_add]
            congr 1
            omega
        _ ≤ 2 ^ (m.log2 + (e - e' - t).toNat) := Nat.pow_le_pow_right (by decide) hgap
        _ = 2 ^ m.log2 * 2 ^ (e - e' - t).toNat := pow_add _ _ _
        _ ≤ m * 2 ^ (e - e' - t).toNat := Nat.mul_le_mul_right _ (Nat.log2_self_le hm.ne')
    have hlog := (Nat.le_log2 (by omega)).mpr hquotient
    unfold totalExponent
    omega

theorem Canonical.div {u v : UnpackedFloat} {a b : ℚ} (hu : Canonical u a) (hv : Canonical v b)
    (hb : b ≠ 0) :
    ∃ r, IsNearest r (a / b) ∧ Canonical (UnpackedFloat.div Format.binary64 u v) r := by
  cases hv with
  | zero s' => exact absurd rfl hb
  | finite s' m' e' hm' hdigits' hleast' hnormal' =>
      cases hu with
      | zero s =>
          rw [zero_div]
          exact ⟨0, .of_isOnGrid (isOnGrid_intCast (n := 0) (by decide)), .zero _⟩
      | finite s m e hm hdigits hleast hnormal =>
          generalize ht :
            min (e - e') (max (totalExponent m e - totalExponent m' e' - 53) (-1074)) = t
          have hshift : (2 : ℚ) ^ (e - e' - t).toNat = 2 ^ (e - e' - t) := by
            rw [← zpow_natCast]
            congr 1
            omega
          have hvalue : (m : ℚ) * 2 ^ e / (m' * 2 ^ e') / 2 ^ t =
              ((m <<< (e - e' - t).toNat : ℕ) : ℚ) / m' := by
            rw [Nat.shiftLeft_eq]
            push_cast
            rw [hshift, zpow_sub₀ (by norm_num), zpow_sub₀ (by norm_num)]
            field_simp
          have hdiv : UnpackedFloat.div Format.binary64 (.finite s m e hm) (.finite s' m' e' hm') =
              roundWithAccuracy Format.binary64 (s / s') ((m <<< (e - e' - t).toNat) / m') t
                (accuracyOfFraction ((m <<< (e - e' - t).toNat) % m') m') := by
            rw [← ht]
            rfl
          obtain ⟨r, hr, hcanonical⟩ := canonical_roundWithAccuracy (s / s')
            (q := (m : ℚ) * 2 ^ e / (m' * 2 ^ e'))
            (by
              rw [hvalue]
              exact approximates_quotient _ hm')
            (le_target_div hm hm' ht.symm)
          refine ⟨withSign (s / s') r, ?_, hdiv ▸ hcanonical⟩
          rw [withSign_div_withSign]
          exact hr.withSign _

/-!
## Operations on floats
-/

namespace Denotes

variable {x y : Float} {a b : ℚ}

theorem add (hx : Denotes x a) (hy : Denotes y b) (h : |a + b| < limit) :
    ∃ r, IsNearest r (a + b) ∧ Denotes (x + y) r := by
  rcases hx.1.add hy.1 with ⟨r, hr, hcanonical⟩
  exact ⟨r, hr, denotes_pack hcanonical (hr.abs_lt_two_zpow h)⟩

theorem sub (hx : Denotes x a) (hy : Denotes y b) (h : |a - b| < limit) :
    ∃ r, IsNearest r (a - b) ∧ Denotes (x - y) r := by
  rcases hx.1.sub hy.1 with ⟨r, hr, hcanonical⟩
  exact ⟨r, hr, denotes_pack hcanonical (hr.abs_lt_two_zpow h)⟩

theorem mul (hx : Denotes x a) (hy : Denotes y b) (h : |a * b| < limit) :
    ∃ r, IsNearest r (a * b) ∧ Denotes (x * y) r := by
  rcases hx.1.mul hy.1 with ⟨r, hr, hcanonical⟩
  exact ⟨r, hr, denotes_pack hcanonical (hr.abs_lt_two_zpow h)⟩

theorem div (hx : Denotes x a) (hy : Denotes y b) (hb : b ≠ 0) (h : |a / b| < limit) :
    ∃ r, IsNearest r (a / b) ∧ Denotes (x / y) r := by
  rcases hx.1.div hy.1 hb with ⟨r, hr, hcanonical⟩
  exact ⟨r, hr, denotes_pack hcanonical (hr.abs_lt_two_zpow h)⟩

theorem neg (hx : Denotes x a) : Denotes (-x) (-a) :=
  denotes_pack hx.1.neg ((abs_neg a).symm ▸ hx.2)

theorem isOnGrid (hx : Denotes x a) : IsOnGrid a :=
  hx.1.isOnGrid

end Denotes

end Binary
end DesignTokens
