import DesignTokens.Number.Scalar
import DesignTokens.Proofs.Number.Bounded
import DesignTokens.Proofs.Number.Decimal

/-!
# Whole numbers

A float that is equal to an integer is recognised as this integer. So a row of digits of
any script, as a font weight is declared, is kept as an integer as long as it is exact as
a float, and its text is then the one that the integer has.
-/

namespace DesignTokens

open Binary Numeral

theorem div_eq_of_cast_div_eq {n d : ℕ} {j : ℤ} (hd : 0 < d) (h : (n : ℚ) / d = j) :
    n % d = 0 ∧ ((n / d : ℕ) : ℤ) = j := by
  have hd' : (d : ℚ) ≠ 0 := by exact_mod_cast hd.ne'
  rw [div_eq_iff hd'] at h
  have hn : (n : ℤ) = j * d := by exact_mod_cast h
  constructor
  · have hmod : ((n % d : ℕ) : ℤ) = 0 := by
      rw [Int.natCast_emod, hn, Int.mul_emod_left]
    exact_mod_cast hmod
  · rw [Int.natCast_ediv, hn, Int.mul_ediv_cancel _ (by exact_mod_cast hd.ne')]

theorem integer?_of_denotes {x : Float} {k : ℤ} (h : Denotes x k) : integer? x = some k := by
  rcases h.exists_parts with ⟨s, m, e, hparts, hvalue⟩
  have hquotient : (m : ℚ) * 2 ^ e =
      ((m * twoPow e.toNat : ℕ) : ℚ) / (twoPow (-e).toNat : ℕ) := by
    rw [two_zpow_eq, Nat.cast_mul, mul_div_assoc]
  rw [hquotient] at hvalue
  have hpos := twoPow_pos (-e).toNat
  unfold integer?
  rw [hparts]
  cases s with
  | negative =>
      have hneg : ((m * twoPow e.toNat : ℕ) : ℚ) / (twoPow (-e).toNat : ℕ) = (-k : ℤ) := by
        rw [Int.cast_neg, hvalue, withSign, neg_neg]
      rcases div_eq_of_cast_div_eq hpos hneg with ⟨hmod, hdiv⟩
      simp only [if_pos hmod, isNegative, if_true, scaled, hdiv, neg_neg]
  | positive =>
      rcases div_eq_of_cast_div_eq hpos hvalue.symm with ⟨hmod, hdiv⟩
      simp only [if_pos hmod, isNegative, Bool.false_eq_true, if_false, scaled, hdiv]

theorem denotes_nearestDecimal {ds : Text} (h : digitsValue ds ≤ 2 ^ 53) :
    Denotes (nearestDecimal ds 0) (digitsValue ds : ℤ) := by
  by_cases hzero : digitsValue ds = 0
  · have hvalue : nearestDecimal ds 0 = nearest 0 1 := if_pos (.inl hzero)
    rw [hvalue, hzero]
    exact_mod_cast denotes_nearest_zero 1
  · have hvalue : nearestDecimal ds 0 = nearestInt (digitsValue ds : ℤ) := by
      have hnearest : nearestDecimal ds 0 = nearest (digitsValue ds) 1 :=
        nearestDecimal_eq (Nat.zero_le ds.length) hzero
      rw [hnearest, nearestInt, decide_eq_false (by omega), Int.natAbs_natCast]
      rfl
    rw [hvalue]
    exact denotes_nearestInt (by rw [Nat.abs_cast]; exact_mod_cast h)

namespace Scalar

section Whole

variable {t : Text} (hdigits : ∀ c ∈ t, Text.isDecimal c = true) (hne : t ≠ [])
  (hexact : digitsValue (t.map asciiDigit) ≤ 2 ^ 53)

include hdigits hne hexact

/-- A row of digits that is exact as a float is kept as an integer. -/
theorem ofText_whole : ofText t = .integer (digitsValue (t.map asciiDigit)) := by
  have hnumeric : ∀ c ∈ t, Text.isNumeric c = true :=
    fun c hc => Text.isNumeric_of_isDecimal (hdigits c hc)
  have hascii : ∀ c ∈ t.map asciiDigit, c.isDigit = true := by
    rw [List.forall_mem_map]
    intro c hc
    rw [isDigit_asciiDigit, hdigits c hc]
  have hplain : hasPointOrExponent t = false := by
    refine List.any_eq_false.mpr fun c hc hmark => ?_
    have hdecimal := hdigits c hc
    simp only [Bool.or_eq_true, decide_eq_true_eq] at hmark
    rcases hmark with (rfl | rfl) | rfl <;> exact absurd hdecimal (by decide)
  unfold ofText
  rw [float?_of_isNumeric hnumeric, decimal?_whole hascii (by simpa using hne)]
  simp only [hplain, Bool.false_eq_true, if_false,
    integer?_of_denotes (denotes_nearestDecimal hexact)]

theorem toText_ofText_whole :
    (ofText t).toText = Text.ofNat (digitsValue (t.map asciiDigit)) := by
  rw [ofText_whole hdigits hne hexact, toText, Text.ofInt, if_neg (by omega), Int.natAbs_natCast]

end Whole

end Scalar
end DesignTokens
