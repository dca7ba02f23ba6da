import Mathlib.Algebra.Order.Field.Power
import Mathlib.Data.Rat.Floor
import Mathlib.Tactic.Linarith
import Mathlib.Tactic.Positivity
import Mathlib.Tactic.Ring

/-!
# The grid of floats

The numbers that floats denote form a grid: integers of 53 binary digits, times
powers of two that are not too small. The result of an operation on floats is a
point of the grid that is nearest to the exact result. Where the exact result lies
between two points of the grid, the nearest point lies between them as well.
-/

namespace DesignTokens
namespace Binary

/-- The numbers that are written with 53 binary digits and an exponent that is not too small. -/
def IsOnGrid (q : ℚ) : Prop :=
  ∃ m e : ℤ, |m| ≤ 2 ^ 53 ∧ -1074 ≤ e ∧ q = m * 2 ^ e

/-- A point of the grid to which no other point is nearer. -/
structure IsNearest (r q : ℚ) : Prop where
  onGrid : IsOnGrid r
  le_dist : ∀ f, IsOnGrid f → |q - r| ≤ |q - f|

def IsNearestInteger (k : ℤ) (z : ℚ) : Prop :=
  ∀ j : ℤ, |z - k| ≤ |z - j|

/-!
## Points of the grid
-/

theorem isOnGrid_intCast {n : ℤ} (h : |n| ≤ 2 ^ 53) : IsOnGrid n :=
  ⟨n, 0, h, by decide, by simp⟩

theorem isOnGrid_two_zpow {e : ℤ} (h : -1074 ≤ e) : IsOnGrid (2 ^ e) :=
  ⟨1, e, by decide, h, by simp⟩

theorem isOnGrid_div_two_pow {m : ℤ} {k : ℕ} (hm : |m| ≤ 2 ^ 53) (hk : k ≤ 1074) :
    IsOnGrid (m / 2 ^ k) := by
  refine ⟨m, -k, hm, by omega, ?_⟩
  rw [zpow_neg, zpow_natCast, div_eq_mul_inv]

theorem IsOnGrid.neg {q : ℚ} (h : IsOnGrid q) : IsOnGrid (-q) := by
  rcases h with ⟨m, e, hm, he, rfl⟩
  exact ⟨-m, e, by rwa [abs_neg], he, by push_cast; ring⟩

/-!
## Nearest points
-/

namespace IsNearest

variable {r q f : ℚ}

theorem neg (h : IsNearest r q) : IsNearest (-r) (-q) := by
  refine ⟨h.onGrid.neg, ?_⟩
  intro f hf
  have hd := h.le_dist (-f) hf.neg
  rwa [show -q - -r = -(q - r) by ring, show -q - f = -(q - -f) by ring, abs_neg, abs_neg]

theorem of_isOnGrid (h : IsOnGrid q) : IsNearest q q := by
  refine ⟨h, ?_⟩
  intro f _
  rw [sub_self, abs_zero]
  exact abs_nonneg _

theorem eq_of_isOnGrid (h : IsNearest r q) (hq : IsOnGrid q) : r = q := by
  have hd := h.le_dist q hq
  rw [sub_self, abs_zero, abs_nonpos_iff] at hd
  linarith

/-- What lies on the grid below the exact number lies below the nearest point. -/
theorem ge_of_ge (h : IsNearest r q) (hf : IsOnGrid f) (hle : f ≤ q) : f ≤ r := by
  by_contra hlt
  have hd := h.le_dist f hf
  rw [abs_of_nonneg (by linarith), abs_of_nonneg (by linarith)] at hd
  linarith

theorem le_of_le (h : IsNearest r q) (hf : IsOnGrid f) (hle : q ≤ f) : r ≤ f := by
  have hneg := h.neg.ge_of_ge hf.neg (neg_le_neg hle)
  linarith

theorem abs_le_of_abs_le (h : IsNearest r q) (hf : IsOnGrid f) (hle : |q| ≤ f) : |r| ≤ f := by
  rw [abs_le] at hle ⊢
  exact ⟨h.ge_of_ge hf.neg hle.1, h.le_of_le hf hle.2⟩

theorem lt_of_lt_middle {lo hi : ℚ} (h : IsNearest r q) (hlo : IsOnGrid lo) (hlt : lo < hi)
    (hq : 2 * q < lo + hi) : r < hi := by
  by_contra hge
  have hd := h.le_dist lo hlo
  rw [abs_sub_comm, abs_of_nonneg (by linarith)] at hd
  rcases le_total lo q with hle | hle
  · rw [abs_of_nonneg (by linarith)] at hd
    linarith
  · rw [abs_of_nonpos (by linarith)] at hd
    linarith

theorem abs_sub_le (h : IsNearest r q) {k : ℕ} (hk : k ≤ 1074)
    (hq : |q| * 2 ^ k ≤ 2 ^ 52) : |q - r| ≤ 1 / 2 ^ k := by
  have hpos : (0 : ℚ) < 2 ^ k := by positivity
  have hdigits : |⌊q * 2 ^ k⌋| ≤ 2 ^ 53 := by
    have hscaled : |q * 2 ^ k| ≤ (2 ^ 52 : ℤ) := by
      rw [abs_mul, abs_of_pos hpos]
      exact_mod_cast hq
    rw [abs_le] at hscaled ⊢
    constructor
    · have hlow : (-2 ^ 52 : ℤ) ≤ ⌊q * 2 ^ k⌋ := by
        rw [Int.le_floor]
        exact_mod_cast hscaled.1
      omega
    · have hhigh : ⌊q * 2 ^ k⌋ ≤ (2 ^ 52 : ℤ) := by
        exact_mod_cast (Int.floor_le _).trans hscaled.2
      omega
  have hbelow : (⌊q * 2 ^ k⌋ : ℚ) / 2 ^ k ≤ q := by
    rw [div_le_iff₀ hpos]
    exact Int.floor_le _
  have habove : q < (⌊q * 2 ^ k⌋ + 1 : ℚ) / 2 ^ k := by
    rw [lt_div_iff₀ hpos]
    exact Int.lt_floor_add_one _
  rw [add_div] at habove
  calc |q - r| ≤ |q - ⌊q * 2 ^ k⌋ / 2 ^ k| := h.le_dist _ (isOnGrid_div_two_pow hdigits hk)
    _ = q - ⌊q * 2 ^ k⌋ / 2 ^ k := abs_of_nonneg (sub_nonneg.mpr hbelow)
    _ ≤ 1 / 2 ^ k := by linarith

end IsNearest

/-- The bound from which on floats are infinite: half a step beyond the largest one. -/
def limit : ℚ :=
  2 ^ (1024 : ℤ) - 2 ^ (970 : ℤ)

def largest : ℚ :=
  (2 ^ 53 - 1 : ℤ) * 2 ^ (971 : ℤ)

theorem isOnGrid_largest : IsOnGrid largest :=
  ⟨2 ^ 53 - 1, 971, by decide, by decide, rfl⟩

theorem two_mul_limit : 2 * limit = largest + 2 ^ (1024 : ℤ) := by
  have hhigh : (2 : ℚ) ^ (1024 : ℤ) = 2 ^ (53 : ℤ) * 2 ^ (971 : ℤ) := by
    rw [← zpow_add₀ (by norm_num)]
    rfl
  have hlow : (2 : ℚ) ^ (971 : ℤ) = 2 * 2 ^ (970 : ℤ) := by
    rw [← zpow_one_add₀ (by norm_num)]
    rfl
  unfold limit largest
  rw [hhigh, hlow]
  generalize (2 : ℚ) ^ (970 : ℤ) = step
  norm_num
  ring

theorem largest_add : largest + 2 ^ (970 : ℤ) = limit := by
  have hlimit := two_mul_limit
  unfold limit at hlimit ⊢
  generalize (2 : ℚ) ^ (970 : ℤ) = step at hlimit ⊢
  generalize (2 : ℚ) ^ (1024 : ℤ) = top at hlimit ⊢
  linarith

theorem largest_lt_limit : largest < limit := by
  have hstep : (0 : ℚ) < 2 ^ (970 : ℤ) := by positivity
  rw [← largest_add]
  exact lt_add_of_pos_right _ hstep

theorem limit_pos : 0 < limit := by
  have hlargest : 0 ≤ largest := mul_nonneg (by norm_num) (by positivity)
  exact hlargest.trans_lt largest_lt_limit

theorem largest_lt : largest < 2 ^ (1024 : ℤ) := by
  have hlimit := two_mul_limit
  have hlt := largest_lt_limit
  generalize (2 : ℚ) ^ (1024 : ℤ) = top at hlimit ⊢
  linarith

theorem IsNearest.lt_two_zpow {r q : ℚ} (h : IsNearest r q) (hq : q < limit) :
    r < 2 ^ (1024 : ℤ) := by
  apply h.lt_of_lt_middle isOnGrid_largest largest_lt
  rw [← two_mul_limit]
  linarith only [hq]

theorem IsNearest.abs_lt_two_zpow {r q : ℚ} (h : IsNearest r q) (hq : |q| < limit) :
    |r| < 2 ^ (1024 : ℤ) := by
  rw [abs_lt] at hq ⊢
  have hneg := h.neg.lt_two_zpow (neg_lt.mp hq.1)
  exact ⟨neg_lt.mp hneg, h.lt_two_zpow hq.2⟩

/-!
## Rounding on a scale

At the scale of a number its 53 leading digits form an integer. Rounding to an
integer at this scale rounds to the grid.
-/

theorem mul_two_zpow_eq {m e t : ℤ} (h : t ≤ e) :
    (m : ℚ) * 2 ^ e = ((m * 2 ^ (e - t).toNat : ℤ) : ℚ) * 2 ^ t := by
  push_cast
  rw [mul_assoc, ← zpow_natCast, ← zpow_add₀ (by norm_num), Int.toNat_of_nonneg (by omega)]
  congr 2
  omega

theorem mul_two_zpow_le {m e t : ℤ} (hm : |m| ≤ 2 ^ 53) (h : e < t) :
    (m : ℚ) * 2 ^ e ≤ 2 ^ 52 * 2 ^ t := by
  have hm' : (m : ℚ) ≤ 2 ^ 53 := by exact_mod_cast (abs_le.mp hm).2
  have hstep : (2 : ℚ) ^ e * 2 ≤ 2 ^ t := by
    rw [← zpow_add_one₀ (by norm_num)]
    exact zpow_le_zpow_right₀ (by norm_num) (by omega)
  have hpos : (0 : ℚ) < 2 ^ e := by positivity
  nlinarith

/-- A scale at which a number has 53 digits before the point, or the least scale. -/
structure IsScale (t : ℤ) (q : ℚ) : Prop where
  least : -1074 ≤ t
  upper : q < 2 ^ 53 * 2 ^ t
  lower : t = -1074 ∨ 2 ^ 52 * 2 ^ t ≤ q

variable {t k : ℤ} {q : ℚ}

theorem IsNearestInteger.nonneg {z : ℚ} (h : IsNearestInteger k z) (hz : 0 ≤ z) : 0 ≤ k := by
  by_contra hk
  have hd := h 0
  have hneg : (k : ℚ) < 0 := by exact_mod_cast not_le.mp hk
  rw [abs_of_nonneg (by linarith), Int.cast_zero, sub_zero, abs_of_nonneg hz] at hd
  linarith

theorem IsNearestInteger.le_of_le {z : ℚ} {j : ℤ} (h : IsNearestInteger k z) (hz : z ≤ j) :
    k ≤ j := by
  by_contra hk
  have hd := h j
  have hgt : (j : ℚ) < k := by exact_mod_cast not_le.mp hk
  rw [abs_of_nonpos (by linarith), abs_of_nonpos (by linarith)] at hd
  linarith

theorem IsNearestInteger.ge_of_ge {z : ℚ} {j : ℤ} (h : IsNearestInteger k z) (hz : j ≤ z) :
    j ≤ k := by
  by_contra hk
  have hd := h j
  have hgt : (k : ℚ) < j := by exact_mod_cast not_le.mp hk
  rw [abs_of_nonneg (by linarith), abs_of_nonneg (by linarith)] at hd
  linarith

theorem IsScale.le_digits (h : IsScale t q) (hk : IsNearestInteger k (q / 2 ^ t)) :
    k ≤ 2 ^ 53 := by
  have hpos : (0 : ℚ) < 2 ^ t := by positivity
  apply hk.le_of_le
  rw [div_le_iff₀ hpos]
  exact_mod_cast h.upper.le

theorem IsScale.digits_le (h : IsScale t q) (hk : IsNearestInteger k (q / 2 ^ t)) :
    t = -1074 ∨ 2 ^ 52 ≤ k := by
  have hpos : (0 : ℚ) < 2 ^ t := by positivity
  rcases h.lower with hleast | hlow
  · exact .inl hleast
  · refine .inr (hk.ge_of_ge ?_)
    rw [le_div_iff₀ hpos]
    exact_mod_cast hlow

/-- Rounding to an integer at the scale of a number rounds to the grid. -/
theorem IsScale.isNearest (h : IsScale t q) (hq : 0 ≤ q)
    (hk : IsNearestInteger k (q / 2 ^ t)) : IsNearest (k * 2 ^ t) q := by
  have hpos : (0 : ℚ) < 2 ^ t := by positivity
  have hnonneg := hk.nonneg (by positivity)
  have hdist : ∀ j : ℤ, |q - k * 2 ^ t| ≤ |q - j * 2 ^ t| := by
    intro j
    have hscaled : ∀ i : ℤ, |q - i * 2 ^ t| = |q / 2 ^ t - i| * 2 ^ t := by
      intro i
      rw [← abs_of_pos hpos, ← abs_mul, abs_of_pos hpos, sub_mul, div_mul_cancel₀ _ hpos.ne']
    rw [hscaled, hscaled]
    exact mul_le_mul_of_nonneg_right (hk j) hpos.le
  refine ⟨⟨k, t, ?_, h.least, rfl⟩, ?_⟩
  · rw [abs_of_nonneg hnonneg]
    exact h.le_digits hk
  · rintro f ⟨m, e, hm, he, rfl⟩
    rcases le_or_gt t e with hte | het
    · rw [mul_two_zpow_eq hte]
      exact hdist _
    · have hlow : 2 ^ 52 * 2 ^ t ≤ q := by
        rcases h.lower with hleast | hlow
        · omega
        · exact hlow
      have hpoint := mul_two_zpow_le hm het
      calc |q - k * 2 ^ t| ≤ |q - (2 ^ 52 : ℤ) * 2 ^ t| := hdist (2 ^ 52)
        _ = q - 2 ^ 52 * 2 ^ t := by
            push_cast
            exact abs_of_nonneg (by linarith)
        _ ≤ q - m * 2 ^ e := by linarith
        _ ≤ |q - m * 2 ^ e| := le_abs_self _

end Binary
end DesignTokens
