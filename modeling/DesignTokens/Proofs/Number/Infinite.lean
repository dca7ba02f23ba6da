import DesignTokens.Proofs.Number.Bounded

/-!
# Floats beyond the largest one

An operation whose exact result is beyond the bound gives an infinite float. Division
and addition keep it infinite, and it has no integer below it. So the bound decides
which products and which quotients of integers are finite.
-/

namespace DesignTokens
namespace Binary

open Float.Model Float.Model.UnpackedFloat

def IsInfinite (x : Float) : Prop :=
  ∃ s, x.toModel.unpack = .infinity s

/-!
## Overflow
-/

theorem unpack_packedInfinity (s : Sign) :
    UnpackedFloat.unpack Format.binary64 (packedInfinity Format.binary64 s) = .infinity s := by
  have he := exponentField_packComponents s (-1#11) 0
  have hf := fractionField_packComponents s (-1#11) 0
  have hs := signField_packComponents s (-1#11) 0
  have hunpack := (unpack_top he).trans (if_pos hf)
  rwa [hs] at hunpack

theorem isInfinite_pack_infinity (s : Sign) :
    IsInfinite (Float.ofModel (Float.Model.pack (.infinity s))) :=
  ⟨s, unpack_packedInfinity s⟩

theorem isInfinite_pack {u : UnpackedFloat} {q : ℚ} (h : Canonical u q)
    (hq : 2 ^ (1024 : ℤ) ≤ |q|) : IsInfinite (Float.ofModel (Float.Model.pack u)) := by
  cases h with
  | zero s =>
      rw [abs_zero] at hq
      exact absurd hq (not_le.mpr (by positivity))
  | finite s m e hm hdigits hleast hnormal =>
      rw [abs_withSign, abs_of_nonneg (by positivity)] at hq
      have hlarge : 971 < e := by
        by_contra hle
        exact absurd hq (not_le.mpr (mul_two_zpow_lt hdigits (not_lt.mp hle)))
      have hfits : 2 ^ 11 ≤ (e + 1023 + 52).toNat + 1 := by omega
      have hpack : UnpackedFloat.pack Format.binary64 (.finite s m e hm) =
          packedInfinity Format.binary64 s := if_pos hfits
      refine ⟨s, ?_⟩
      change UnpackedFloat.unpack Format.binary64
        (UnpackedFloat.pack Format.binary64 (.finite s m e hm)) = .infinity s
      rw [hpack, unpack_packedInfinity]

theorem IsNearest.largest_lt {r q : ℚ} (h : IsNearest r q) (hq : limit < q) : largest < r := by
  by_contra hle
  -- the grid goes on beyond the floats, and its next point would be nearer
  have hd := h.le_dist (2 ^ (1024 : ℤ)) (isOnGrid_two_zpow (by decide))
  have hmiddle := two_mul_limit
  have hlargest := largest_lt_limit
  generalize (2 : ℚ) ^ (1024 : ℤ) = top at hd hmiddle
  rw [abs_of_nonneg (by linarith)] at hd
  rcases le_total q top with htop | htop
  · rw [abs_of_nonpos (by linarith)] at hd
    linarith
  · rw [abs_of_nonneg (by linarith)] at hd
    linarith

theorem IsNearest.largest_lt_abs {r q : ℚ} (h : IsNearest r q) (hq : limit < |q|) :
    largest < |r| := by
  rcases lt_abs.mp hq with hpos | hneg
  · exact (h.largest_lt hpos).trans_le (le_abs_self r)
  · exact (h.neg.largest_lt hneg).trans_le (neg_le_abs r)

theorem isInfinite_of_isNearest {u : UnpackedFloat} {r q : ℚ} (h : Canonical u r)
    (hr : IsNearest r q) (hq : limit < |q|) :
    IsInfinite (Float.ofModel (Float.Model.pack u)) := by
  apply isInfinite_pack h
  by_contra hlt
  exact absurd (h.abs_le_largest (not_le.mp hlt)) (not_le.mpr (hr.largest_lt_abs hq))

theorem Denotes.isInfinite_mul {x y : Float} {a b : ℚ} (hx : Denotes x a) (hy : Denotes y b)
    (h : limit < |a * b|) : IsInfinite (x * y) := by
  rcases hx.1.mul hy.1 with ⟨r, hr, hcanonical⟩
  exact isInfinite_of_isNearest hcanonical hr h

/-!
## Quotients of integers
-/

theorem lt_roundHalfEven {num den k : Nat} (hden : 0 < den) (hodd : k % 2 = 1)
    (h : (2 * k + 1) * den ≤ 2 * num) : k < roundHalfEven num den := by
  have hsplit := Nat.div_add_mod num den
  have hquotient : k ≤ num / den := by
    rw [Nat.le_div_iff_mul_le hden]
    linarith
  unfold roundHalfEven
  simp only
  rcases hquotient.lt_or_eq with hlt | heq
  · split
    · exact hlt
    · split
      · omega
      · split <;> omega
  · rw [← heq] at hsplit ⊢
    have hrest : den ≤ 2 * (num % den) := by linarith
    rw [if_neg (by omega)]
    split
    · omega
    · rw [if_neg (by omega)]
      omega

theorem isInfinite_ofBits : IsInfinite (Float.ofBits (UInt64.ofNat (2047 * 2 ^ 52))) :=
  ⟨.positive, rfl⟩

theorem IsScale.le_of_limit_le {t : ℤ} {q : ℚ} (h : IsScale t q) (hq : limit ≤ q) :
    971 ≤ t := by
  by_contra hlt
  have hsum := largest_add
  have hupper : q < 2 ^ 53 * 2 ^ (970 : ℤ) :=
    h.upper.trans_le (mul_le_mul_of_nonneg_left
      (zpow_le_zpow_right₀ (by norm_num) (by omega)) (by norm_num))
  have hstep : (2 : ℚ) ^ (971 : ℤ) = 2 * 2 ^ (970 : ℤ) := by
    rw [← zpow_one_add₀ (by norm_num)]
    rfl
  have hpos : (0 : ℚ) < 2 ^ (970 : ℤ) := by positivity
  unfold largest at hsum
  rw [hstep] at hsum
  generalize (2 : ℚ) ^ (970 : ℤ) = step at hsum hupper hpos
  push_cast at hsum
  linarith

theorem two_mul_limit_eq : 2 * limit = (2 ^ 54 - 1 : ℕ) * 2 ^ (971 : ℤ) := by
  have htop : (2 : ℚ) ^ (1024 : ℤ) = 2 ^ 53 * 2 ^ (971 : ℤ) := (two_zpow_add 53 971).symm
  rw [two_mul_limit, htop, largest, ← add_mul]
  norm_num

/-- The mantissa of a quotient beyond the bound is carried out of the largest exponent. -/
theorem le_packed_of_limit_le {num den : Nat} (hden : 0 < den)
    (h : limit ≤ (num : ℚ) / den) (hscale : IsScale (quotientExponent num den) (num / den)) :
    2047 * 2 ^ 52 ≤ (quotientExponent num den + 1074).toNat * 2 ^ 52 +
      roundHalfEven (num * twoPow (-quotientExponent num den).toNat)
        (den * twoPow (quotientExponent num den).toNat) := by
  have hlarge := hscale.le_of_limit_le h
  rcases hlarge.eq_or_lt with heq | hlt
  · -- at the scale of the largest float the mantissa is rounded up to one digit more
    rw [← heq]
    have hdouble : ¬ ((2 * num : ℕ) : ℚ) / den < (2 ^ 54 - 1 : ℕ) * 2 ^ (971 : ℤ) := by
      rw [← two_mul_limit_eq, Nat.cast_mul, mul_div_assoc, Nat.cast_ofNat, not_lt]
      linarith
    rw [← quotient_lt_iff hden] at hdouble
    have hcarry : 2 ^ 53 - 1 < roundHalfEven (num * twoPow (-(971 : ℤ)).toNat)
        (den * twoPow (971 : ℤ).toNat) := by
      apply lt_roundHalfEven (Nat.mul_pos hden (twoPow_pos _)) (by decide)
      rw [mul_assoc] at hdouble
      exact not_lt.mp hdouble
    have hexponent : ((971 : ℤ) + 1074).toNat = 2045 := rfl
    omega
  · have hinteger := isNearestInteger_roundHalfEven
      (num * twoPow (-quotientExponent num den).toNat)
      (Nat.mul_pos hden (twoPow_pos (quotientExponent num den).toNat))
    rw [← scaled_quotient] at hinteger
    have hnormal := hscale.digits_le hinteger
    omega

theorem isInfinite_nearest {num den : Nat} (hden : 0 < den) (h : limit ≤ (num : ℚ) / den) :
    IsInfinite (nearest num den) := by
  have hnum : num ≠ 0 := by
    rintro rfl
    rw [Nat.cast_zero, zero_div] at h
    exact absurd h (not_le.mpr limit_pos)
  have hscale := isScale_quotientExponent (Nat.pos_of_ne_zero hnum) hden
  have hbits : nearestBits num den = 2047 * 2 ^ 52 :=
    (if_neg hnum).trans (min_eq_right (le_packed_of_limit_le hden h hscale))
  rw [nearest, hbits]
  exact isInfinite_ofBits

/-!
## What stays infinite
-/

namespace IsInfinite

variable {x y : Float} {b : ℚ}

theorem div (hx : IsInfinite x) (hy : Denotes y b) : IsInfinite (x / y) := by
  rcases hx with ⟨s, hs⟩
  have hcanonical := hy.1
  have hdiv : ∃ s', UnpackedFloat.div Format.binary64 x.toModel.unpack y.toModel.unpack =
      .infinity s' := by
    rw [hs]
    generalize y.toModel.unpack = v at hcanonical ⊢
    cases hcanonical with
    | zero s' => exact ⟨s / s', rfl⟩
    | finite s' m e hm hdigits hleast hnormal => exact ⟨s / s', rfl⟩
  rcases hdiv with ⟨s', hs'⟩
  change IsInfinite (Float.ofModel (Float.Model.pack (UnpackedFloat.div _ _ _)))
  rw [hs']
  exact isInfinite_pack_infinity s'

theorem add (hx : IsInfinite x) (hy : Denotes y b) : IsInfinite (x + y) := by
  rcases hx with ⟨s, hs⟩
  have hcanonical := hy.1
  have hadd : UnpackedFloat.add Format.binary64 x.toModel.unpack y.toModel.unpack =
      .infinity s := by
    rw [hs]
    generalize y.toModel.unpack = v at hcanonical ⊢
    cases hcanonical <;> rfl
  change IsInfinite (Float.ofModel (Float.Model.pack (UnpackedFloat.add _ _ _)))
  rw [hadd]
  exact isInfinite_pack_infinity s

theorem isInf_eq (hx : IsInfinite x) : x.isInf = true := by
  rcases hx with ⟨s, hs⟩
  change x.toModel.unpack.isInf = true
  rw [hs]
  rfl

theorem ofFloat_eq (hx : IsInfinite x) : ∃ negative, ofFloat x = .infinite negative := by
  rcases hx with ⟨s, hs⟩
  rcases unpack_cases (bitsOf x) with ⟨htop, hunpack⟩ | ⟨_, q, hcanonical, _⟩
  · rw [unpack_bitsOf, hs] at hunpack
    rw [Binary.ofFloat_eq, if_pos htop]
    split at hunpack
    · rename_i hfraction
      exact ⟨_, if_pos hfraction⟩
    · cases hunpack
  · rw [unpack_bitsOf, hs] at hcanonical
    cases hcanonical

end IsInfinite

end Binary

open Binary

theorem floor?_of_isInfinite {x : Float} (hx : IsInfinite x) :
    floor? x = .error .infiniteToInteger := by
  rcases hx.ofFloat_eq with ⟨negative, hparts⟩
  unfold floor?
  rw [hparts]

theorem roundHalfUp?_of_isInfinite {x : Float} (hx : IsInfinite x) :
    roundHalfUp? x = .error .infiniteToInteger :=
  floor?_of_isInfinite (hx.add denotes_half)

end DesignTokens
