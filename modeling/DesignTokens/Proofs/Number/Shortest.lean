import DesignTokens.Number.Shortest
import DesignTokens.Proofs.Number.Decimal
import DesignTokens.Proofs.Number.Rounding

/-!
# Shortest decimals round back

The decimal that is chosen for a float is among the numbers that round to it. Each
candidate of the search has been compared with the ends of this interval, zeros at the end
of the digits do not count, and without a candidate the exact value is taken.
-/

namespace DesignTokens
namespace Decimal

open Binary Numeral

def value (d : Decimal) : ℚ :=
  d.digits * 10 ^ d.exponent

/-!
## Comparisons
-/

theorem ten_zpow_eq (i : ℤ) :
    (10 : ℚ) ^ i = (tenPow i.toNat : ℕ) / (tenPow (-i).toNat : ℕ) := by
  have hcast : ∀ n : Nat, ((tenPow n : ℕ) : ℚ) = 10 ^ (n : ℤ) := by
    intro n
    rw [cast_tenPow, zpow_natCast]
  rw [hcast, hcast, ← zpow_sub₀ (by norm_num), Int.toNat_sub_toNat_neg]

theorem compare_div {a b p q : Nat} (hp : 0 < p) (hq : 0 < q) :
    compare (a * q) (b * p) = compare ((a : ℚ) / p) (b / q) := by
  have hp' : (0 : ℚ) < p := by exact_mod_cast hp
  have hq' : (0 : ℚ) < q := by exact_mod_cast hq
  rcases lt_trichotomy (a * q) (b * p) with hlt | heq | hgt
  · rw [compare_lt_iff_lt.mpr hlt, eq_comm, compare_lt_iff_lt, div_lt_div_iff₀ hp' hq']
    exact_mod_cast hlt
  · rw [compare_eq_iff_eq.mpr heq, eq_comm, compare_eq_iff_eq, div_eq_div_iff hp'.ne' hq'.ne']
    exact_mod_cast heq
  · rw [compare_gt_iff_gt.mpr hgt, eq_comm, compare_gt_iff_gt, div_lt_div_iff₀ hq' hp']
    exact_mod_cast hgt

theorem compareBinary_eq (a : Nat) (i : ℤ) (n : Nat) (j : ℤ) :
    compareBinary a i n j = compare ((a : ℚ) * 10 ^ i) (n * 2 ^ j) := by
  rw [ten_zpow_eq, two_zpow_eq, mul_div_assoc', mul_div_assoc', ← Nat.cast_mul, ← Nat.cast_mul,
    ← compare_div (tenPow_pos _) (twoPow_pos _)]
  rfl

theorem quarter_zpow (e : ℤ) : (2 : ℚ) ^ (e - 2) = 2 ^ e / 4 := by
  rw [zpow_sub₀ (by norm_num)]
  norm_num

theorem cast_lowerEnd {m : Nat} (hm : 0 < m) (e : ℤ) :
    (((if m = twoPow 52 ∧ -1074 < e then 4 * m - 1 else 4 * m - 2) : ℕ) : ℚ) * 2 ^ (e - 2) =
      (m - reachBelow m e) * 2 ^ e := by
  rw [quarter_zpow, show twoPow 52 = 2 ^ 52 from rfl, reachBelow]
  split
  · rw [Nat.cast_sub (by omega)]
    push_cast
    ring
  · rw [Nat.cast_sub (by omega)]
    push_cast
    ring

theorem cast_upperEnd (m : Nat) (e : ℤ) :
    ((4 * m + 2 : ℕ) : ℚ) * 2 ^ (e - 2) = (m + 1 / 2) * 2 ^ e := by
  rw [quarter_zpow]
  push_cast
  ring

theorem roundsTo_of_readsBack {m : Nat} {e : ℤ} {d : Decimal} (hm : 0 < m)
    (h : readsBack m e d = true) : RoundsTo m e d.value := by
  unfold readsBack at h
  simp only [compareBinary_eq, Bool.and_eq_true, Bool.or_eq_true, decide_eq_true_eq,
    compare_gt_iff_gt, compare_lt_iff_lt, compare_eq_iff_eq, cast_lowerEnd hm,
    cast_upperEnd] at h
  rcases h with ⟨hlower, hupper⟩
  unfold value
  refine ⟨?_, ?_, ?_, ?_⟩
  · rcases hlower with hlt | ⟨_, heq⟩
    · exact hlt.le
    · exact heq.ge
  · rcases hupper with hlt | ⟨_, heq⟩
    · exact hlt.le
    · exact heq.le
  · intro hodd
    exact hlower.resolve_right fun hend => by omega
  · intro hodd
    exact hupper.resolve_right fun hend => by omega

/-!
## The search
-/

theorem readsBack_of_onGrid? {m : Nat} {e place : ℤ} {d : Decimal}
    (h : onGrid? m e place = some d) : readsBack m e d = true := by
  unfold onGrid? at h
  simp only at h
  split at h
  · cases h
  · rename_i hlower _
    cases h
    exact hlower
  · rename_i _ hupper
    cases h
    exact hupper
  · rename_i hlower hupper
    split at h
    · cases h
      exact hupper
    · cases h
      exact hlower
    · split at h
      · cases h
        exact hlower
      · cases h
        exact hupper

theorem value_trimmed (fuel : Nat) (d : Decimal) : (trimmed fuel d).value = d.value := by
  fun_induction trimmed fuel d with
  | case1 d => rfl
  | case2 fuel d hzero ih =>
      rw [ih]
      have hdigits : (d.digits : ℚ) = 10 * (d.digits / 10 : ℕ) := by
        exact_mod_cast (Nat.mul_div_cancel' (Nat.dvd_of_mod_eq_zero hzero.2)).symm
      unfold value
      rw [hdigits, zpow_add_one₀ (by norm_num)]
      ring
  | case3 fuel d hzero => rfl

theorem value_exact (m : Nat) (e : ℤ) : (exact m e).value = m * 2 ^ e := by
  have hfive : (5 : ℚ) ^ (-e).toNat * 10 ^ min e 0 = 1 / 2 ^ (-e).toNat := by
    rw [show min e 0 = -((-e).toNat : ℤ) by omega, zpow_neg, zpow_natCast, eq_div_iff (by positivity),
      mul_right_comm, ← mul_pow]
    norm_num
  have htwo := two_zpow_eq e
  rw [cast_twoPow, cast_twoPow] at htwo
  have hdigits : (((exact m e).digits : ℕ) : ℚ) = m * 2 ^ e.toNat * 5 ^ (-e).toNat := by
    rw [← cast_twoPow, show (5 : ℚ) ^ (-e).toNat = (Nat.pow 5 (-e).toNat : ℕ) from
      (Nat.cast_pow 5 (-e).toNat).symm]
    exact_mod_cast rfl
  unfold value
  rw [hdigits, htwo, mul_assoc]
  change _ * (5 ^ (-e).toNat * 10 ^ min e 0) = _
  rw [hfive]
  ring

/-- The decimal that is chosen rounds to the float. -/
theorem roundsTo_shortest {m : Nat} (hm : 0 < m) (e : ℤ) : RoundsTo m e (shortest m e).value := by
  unfold shortest
  simp only
  rw [if_neg hm.ne']
  split
  · rename_i d hfound
    rcases List.exists_of_findSome?_eq_some hfound with ⟨n, _, hgrid⟩
    rw [value_trimmed]
    exact roundsTo_of_readsBack hm (readsBack_of_onGrid? hgrid)
  · rw [value_exact]
    exact roundsTo_self m e

end Decimal
end DesignTokens
