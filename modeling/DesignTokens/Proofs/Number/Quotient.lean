import DesignTokens.Proofs.Number.Integer

/-!
# Quotients of integers

The bits of a quotient are put together from its exponent and its mantissa. The
exponent is the scale of the quotient, so the float denotes the point of the grid
that is nearest to it.
-/

namespace DesignTokens
namespace Binary

open Float.Model Float.Model.UnpackedFloat

theorem cast_twoPow (n : Nat) : ((twoPow n : ℕ) : ℚ) = 2 ^ n := by
  rw [show twoPow n = 2 ^ n from rfl]
  push_cast
  rfl

theorem twoPow_pos (n : Nat) : 0 < twoPow n :=
  Nat.pow_pos (by decide)

/-!
## The mantissa
-/

theorem isNearestInteger_roundHalfEven (num : Nat) {den : Nat} (hden : 0 < den) :
    IsNearestInteger (roundHalfEven num den) (num / den) := by
  have hpos : (0 : ℚ) < den := by exact_mod_cast hden
  have hsplit : (den : ℚ) * (num / den : ℕ) + (num % den : ℕ) = num := by
    exact_mod_cast Nat.div_add_mod num den
  have hrest : (num % den : ℕ) < (den : ℚ) := by exact_mod_cast Nat.mod_lt num hden
  have hrest' : (0 : ℚ) ≤ (num % den : ℕ) := Nat.cast_nonneg _
  have hdist : ∀ k : ℤ, 2 * |(num : ℚ) - k * den| ≤ den → IsNearestInteger k (num / den) := by
    intro k hk
    apply isNearestInteger_of_le_half
    rw [show (num : ℚ) / den - k = (num - k * den) / den by field_simp, abs_div, abs_of_pos hpos,
      div_le_iff₀ hpos]
    linarith
  have hbelow : 2 * (num % den) ≤ den → IsNearestInteger ((num / den : ℕ) : ℤ) (num / den) := by
    intro hle
    have hle' : 2 * ((num % den : ℕ) : ℚ) ≤ den := by exact_mod_cast hle
    apply hdist
    rw [Int.cast_natCast, abs_of_nonneg (by linarith)]
    linarith
  have habove : den ≤ 2 * (num % den) →
      IsNearestInteger ((num / den + 1 : ℕ) : ℤ) (num / den) := by
    intro hge
    have hge' : (den : ℚ) ≤ 2 * ((num % den : ℕ) : ℚ) := by exact_mod_cast hge
    apply hdist
    rw [Int.cast_natCast, Nat.cast_add, Nat.cast_one, abs_of_nonpos (by linarith)]
    linarith
  unfold roundHalfEven
  simp only
  split
  · exact hbelow (by omega)
  · split
    · exact habove (by omega)
    · split
      · exact hbelow (by omega)
      · exact habove (by omega)

/-!
## The exponent
-/

theorem quotient_lt_iff {num den : Nat} (hden : 0 < den) (c : Nat) (e : ℤ) :
    num * twoPow (-e).toNat < c * (den * twoPow e.toNat) ↔ (num : ℚ) / den < c * 2 ^ e := by
  have hden' : (0 : ℚ) < den := by exact_mod_cast hden
  have hlow : (0 : ℚ) < (twoPow (-e).toNat : ℕ) := by exact_mod_cast twoPow_pos _
  rw [two_zpow_eq, div_lt_iff₀ hden', mul_div_assoc', div_mul_eq_mul_div, lt_div_iff₀ hlow,
    ← Nat.cast_lt (α := ℚ)]
  push_cast
  rw [mul_assoc, mul_comm (den : ℚ)]

theorem two_zpow_log2_le {n : Nat} (h : 0 < n) : (2 : ℚ) ^ (n.log2 : ℤ) ≤ n := by
  rw [zpow_natCast]
  exact_mod_cast Nat.log2_self_le h.ne'

theorem lt_two_zpow_log2 (n : Nat) : (n : ℚ) < 2 ^ ((n.log2 : ℤ) + 1) := by
  rw [show (n.log2 : ℤ) + 1 = ((n.log2 + 1 : ℕ) : ℤ) by push_cast; rfl, zpow_natCast]
  exact_mod_cast Nat.lt_log2_self

theorem quotient_lt_two_zpow (num : Nat) {den : Nat} (hden : 0 < den) :
    (num : ℚ) / den < 2 ^ ((num.log2 : ℤ) - den.log2 + 1) := by
  have hden' : (0 : ℚ) < den := by exact_mod_cast hden
  rw [div_lt_iff₀ hden']
  calc (num : ℚ) < 2 ^ ((num.log2 : ℤ) + 1) := lt_two_zpow_log2 num
    _ = 2 ^ ((num.log2 : ℤ) - den.log2 + 1) * 2 ^ (den.log2 : ℤ) := by
        rw [← zpow_add₀ (by norm_num)]
        congr 1
        omega
    _ ≤ 2 ^ ((num.log2 : ℤ) - den.log2 + 1) * den :=
        mul_le_mul_of_nonneg_left (two_zpow_log2_le hden) (by positivity)

theorem two_zpow_lt_quotient {num den : Nat} (hnum : 0 < num) (hden : 0 < den) :
    2 ^ ((num.log2 : ℤ) - den.log2 - 1) < (num : ℚ) / den := by
  have hden' : (0 : ℚ) < den := by exact_mod_cast hden
  rw [lt_div_iff₀ hden']
  calc 2 ^ ((num.log2 : ℤ) - den.log2 - 1) * (den : ℚ)
      < 2 ^ ((num.log2 : ℤ) - den.log2 - 1) * 2 ^ ((den.log2 : ℤ) + 1) :=
        mul_lt_mul_of_pos_left (lt_two_zpow_log2 den) (by positivity)
    _ = 2 ^ (num.log2 : ℤ) := by
        rw [← zpow_add₀ (by norm_num)]
        congr 1
        omega
    _ ≤ num := two_zpow_log2_le hnum

/-- Before the bound of the least exponent, the quotient has exactly 53 digits. -/
theorem exists_quotientExponent {num den : Nat} (hnum : 0 < num) (hden : 0 < den) :
    ∃ e : ℤ, quotientExponent num den = max e (-1074) ∧
      (num : ℚ) / den < 2 ^ 53 * 2 ^ e ∧ 2 ^ 52 * 2 ^ e ≤ (num : ℚ) / den := by
  have hup := quotient_lt_two_zpow num hden
  have hlow := two_zpow_lt_quotient hnum hden
  have hcond := @quotient_lt_iff num den hden (twoPow 52) ((num.log2 : ℤ) - den.log2 - 52)
  rw [cast_twoPow] at hcond
  unfold quotientExponent
  simp only
  split
  · rename_i hsmall
    refine ⟨_, rfl, ?_, ?_⟩
    · calc (num : ℚ) / den < 2 ^ 52 * 2 ^ ((num.log2 : ℤ) - den.log2 - 52) := hcond.mp hsmall
        _ = 2 ^ 53 * 2 ^ ((num.log2 : ℤ) - den.log2 - 52 - 1) := by
            rw [two_zpow_add, two_zpow_add]
            congr 1
            push_cast
            omega
    · rw [two_zpow_add]
      apply le_of_eq_of_le _ hlow.le
      congr 1
      push_cast
      omega
  · rename_i hlarge
    refine ⟨_, rfl, ?_, not_lt.mp (mt hcond.mpr hlarge)⟩
    rw [two_zpow_add]
    apply lt_of_lt_of_eq hup
    congr 1
    push_cast
    omega

theorem isScale_quotientExponent {num den : Nat} (hnum : 0 < num) (hden : 0 < den) :
    IsScale (quotientExponent num den) (num / den) := by
  rcases exists_quotientExponent hnum hden with ⟨e, hexponent, hupper, hlower⟩
  rw [hexponent]
  refine ⟨le_max_right _ _, lt_of_lt_of_le hupper ?_, ?_⟩
  · apply mul_le_mul_of_nonneg_left _ (by norm_num)
    exact zpow_le_zpow_right₀ (by norm_num) (le_max_left _ _)
  · rcases le_total e (-1074) with hle | hge
    · exact .inl (max_eq_right hle)
    · refine .inr ?_
      rw [max_eq_left hge]
      exact hlower

/-!
## The bits
-/

theorem carried_value (k : Nat) :
    ((2 ^ 53 : ℕ) : ℚ) * 2 ^ ((k : ℤ) - 1074) =
      (2 ^ 52 : ℕ) * 2 ^ (((k + 1 : ℕ) : ℤ) - 1074) := by
  have hexponent : ((k + 1 : ℕ) : ℤ) - 1074 = (k : ℤ) - 1074 + 1 := by omega
  rw [hexponent, zpow_add_one₀ (by norm_num)]
  push_cast
  ring

theorem packed_lt {k m : Nat} (hdigits : m ≤ 2 ^ 53) (hnormal : 2 ^ 52 ≤ m ∨ k = 0)
    (hlarge : (m : ℚ) * 2 ^ ((k : ℤ) - 1074) < 2 ^ (1024 : ℤ)) :
    k * 2 ^ 52 + m < 2047 * 2 ^ 52 := by
  by_cases hm : m = 2 ^ 53
  · rw [hm, carried_value] at hlarge
    have hk := le_of_mul_two_zpow_lt le_rfl hlarge
    omega
  · rcases hnormal with hnormal | hzero
    · have hk := le_of_mul_two_zpow_lt hnormal hlarge
      omega
    · omega

theorem signField_eq_positive {b : Bits} (hb : b.toNat < 2 ^ 63) : signField b = .positive := by
  have hsign := isNegative_signField b
  rw [decide_eq_false (by omega)] at hsign
  cases hfield : signField b with
  | negative =>
      rw [hfield] at hsign
      cases hsign
  | positive => rfl

theorem canonical_unpack_normal {b : Bits} {k m : Nat} (hb : b.toNat = k * 2 ^ 52 + m)
    (hnormal : 2 ^ 52 ≤ m) (hdigits : m < 2 ^ 53) (hlarge : k * 2 ^ 52 + m < 2047 * 2 ^ 52) :
    Canonical (UnpackedFloat.unpack Format.binary64 b) (m * 2 ^ ((k : ℤ) - 1074)) := by
  have hexponent : exponentField b = k + 1 := by
    rw [exponentField]
    omega
  have hfraction : 2 ^ 52 + fractionField b = m := by
    rw [fractionField]
    omega
  have hvalue : (m : ℚ) * 2 ^ ((k : ℤ) - 1074) =
      withSign .positive ((2 ^ 52 + fractionField b : ℕ) * 2 ^ ((exponentField b : ℤ) - 1075)) := by
    have hscale : ((exponentField b : ℕ) : ℤ) - 1075 = (k : ℤ) - 1074 := by omega
    rw [hfraction, hscale]
    rfl
  rw [unpack_normal (by omega) (by omega), signField_eq_positive (by omega), hvalue]
  exact .finite _ _ _ _ (by omega) (by omega) (.inl (by omega))

/--
An exponent and a mantissa are put together by addition. A mantissa that has become a
power of two moves into the exponent.
-/
theorem canonical_unpack {b : Bits} {k m : Nat} (hb : b.toNat = k * 2 ^ 52 + m)
    (hdigits : m ≤ 2 ^ 53) (hnormal : 2 ^ 52 ≤ m ∨ k = 0)
    (hlarge : (m : ℚ) * 2 ^ ((k : ℤ) - 1074) < 2 ^ (1024 : ℤ)) :
    Canonical (UnpackedFloat.unpack Format.binary64 b) (m * 2 ^ ((k : ℤ) - 1074)) := by
  have htop := packed_lt hdigits hnormal hlarge
  by_cases hcarry : m = 2 ^ 53
  · have hpacked : k * 2 ^ 52 + m = (k + 1) * 2 ^ 52 + 2 ^ 52 := by
      rw [hcarry]
      ring
    rw [hpacked] at hb htop
    rw [hcarry, carried_value]
    exact canonical_unpack_normal hb le_rfl (by decide) htop
  · by_cases hm : 2 ^ 52 ≤ m
    · exact canonical_unpack_normal hb hm (by omega) htop
    · have hk : k = 0 := hnormal.resolve_left hm
      have hexponent : exponentField b = 0 := by
        rw [exponentField]
        omega
      have hfraction : fractionField b = m := by
        rw [fractionField]
        omega
      rw [hk, Nat.cast_zero, zero_sub]
      rcases Nat.eq_zero_or_pos m with hzero | hpos
      · rw [unpack_zero hexponent (by omega), hzero, Nat.cast_zero, zero_mul]
        exact .zero _
      · have hvalue : (m : ℚ) * 2 ^ (-1074 : ℤ) =
            withSign .positive ((fractionField b : ℕ) * 2 ^ (-1074 : ℤ)) := by
          rw [hfraction]
          rfl
        rw [unpack_subnormal hexponent (by omega), signField_eq_positive (by omega), hvalue]
        exact .finite _ _ _ _ (by omega) le_rfl (.inr rfl)

theorem denotes_ofBits {n : Nat} {q : ℚ}
    (h : Canonical (UnpackedFloat.unpack Format.binary64 (BitVec.ofNat 64 n)) q)
    (hq : |q| < 2 ^ (1024 : ℤ)) : Denotes (Float.ofBits (UInt64.ofNat n)) q :=
  denotes_pack h hq

theorem denotes_packed {k m : Nat} (hdigits : m ≤ 2 ^ 53) (hnormal : 2 ^ 52 ≤ m ∨ k = 0)
    (hlarge : (m : ℚ) * 2 ^ ((k : ℤ) - 1074) < 2 ^ (1024 : ℤ)) :
    Denotes (Float.ofBits (UInt64.ofNat (k * 2 ^ 52 + m))) (m * 2 ^ ((k : ℤ) - 1074)) := by
  have htop := packed_lt hdigits hnormal hlarge
  apply denotes_ofBits
  · have hbits : (BitVec.ofNat 64 (k * 2 ^ 52 + m)).toNat = k * 2 ^ 52 + m := by
      rw [BitVec.toNat_ofNat]
      omega
    exact canonical_unpack hbits hdigits hnormal hlarge
  · have hnonneg : (0 : ℚ) ≤ m * 2 ^ ((k : ℤ) - 1074) :=
      mul_nonneg (Nat.cast_nonneg m) (zpow_nonneg (by norm_num) _)
    rw [abs_of_nonneg hnonneg]
    exact hlarge

theorem denotes_nearest_zero (den : Nat) : Denotes (nearest 0 den) 0 := by
  have hden : nearest 0 den = nearest 0 1 := by
    rw [nearest, nearest, nearestBits, nearestBits, if_pos rfl, if_pos rfl]
  rw [hden]
  exact denotes_of_parts 0 (-1074) (by decide +kernel) (zero_mul _)

theorem scaled_quotient (num den : Nat) (e : ℤ) :
    (num : ℚ) / den / 2 ^ e =
      ((num * twoPow (-e).toNat : ℕ) : ℚ) / ((den * twoPow e.toNat : ℕ) : ℚ) := by
  rw [two_zpow_eq, div_div_eq_mul_div, div_mul_eq_mul_div, div_div]
  push_cast
  rfl

/-- The float nearest to a quotient is put together from its exponent and its mantissa. -/
theorem denotes_nearest_of_lt {num den m : Nat} {e : ℤ} (hnum : 0 < num) (hden : 0 < den)
    (hexponent : quotientExponent num den = e)
    (hmantissa : roundHalfEven (num * twoPow (-e).toNat) (den * twoPow e.toNat) = m)
    (hlarge : (m : ℚ) * 2 ^ e < 2 ^ (1024 : ℤ)) :
    IsNearest (m * 2 ^ e) ((num : ℚ) / den) ∧ Denotes (nearest num den) (m * 2 ^ e) := by
  have hscale := isScale_quotientExponent hnum hden
  rw [hexponent] at hscale
  have hinteger := isNearestInteger_roundHalfEven (num * twoPow (-e).toNat)
    (Nat.mul_pos hden (twoPow_pos e.toNat))
  rw [← scaled_quotient, hmantissa] at hinteger
  have hdigits := hscale.le_digits hinteger
  have hnormal := hscale.digits_le hinteger
  have hnearest := hscale.isNearest (by positivity) hinteger
  have hleast := hscale.least
  have hbits : nearestBits num den = min ((e + 1074).toNat * 2 ^ 52 + m) (2047 * 2 ^ 52) := by
    rw [← hmantissa, ← hexponent]
    exact if_neg hnum.ne'
  obtain ⟨k, rfl⟩ : ∃ k : ℕ, e = (k : ℤ) - 1074 := ⟨(e + 1074).toNat, by omega⟩
  have hlt := packed_lt (by omega) (by omega) hlarge
  rw [Int.cast_natCast] at hnearest
  refine ⟨hnearest, ?_⟩
  rw [nearest, hbits, sub_add_cancel, Int.toNat_natCast, min_eq_left hlt.le]
  exact denotes_packed (by omega) (by omega) hlarge

theorem denotes_nearest (num : Nat) {den : Nat} (hden : 0 < den)
    (hlimit : (num : ℚ) / den < limit) :
    ∃ r, IsNearest r ((num : ℚ) / den) ∧ Denotes (nearest num den) r := by
  rcases Nat.eq_zero_or_pos num with rfl | hnum
  · refine ⟨0, ?_, ?_⟩
    · rw [Nat.cast_zero, zero_div]
      exact .of_isOnGrid (isOnGrid_intCast (n := 0) (by decide))
    · exact denotes_nearest_zero den
  · have hscale := isScale_quotientExponent hnum hden
    have hinteger := isNearestInteger_roundHalfEven
      (num * twoPow (-quotientExponent num den).toNat)
      (Nat.mul_pos hden (twoPow_pos (quotientExponent num den).toNat))
    rw [← scaled_quotient] at hinteger
    have hlarge := (hscale.isNearest (by positivity) hinteger).lt_two_zpow hlimit
    exact ⟨_, denotes_nearest_of_lt hnum hden rfl rfl hlarge⟩

end Binary
end DesignTokens
