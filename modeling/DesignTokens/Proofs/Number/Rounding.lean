import DesignTokens.Proofs.Number.Quotient

/-!
# Numbers that round to a float

The numbers that round to a float reach half way to both of its neighbours, and the
neighbour below a power of two is closer. The ends belong to a float with an even
mantissa. A quotient between these ends is read as the float, and a float is known by
its parts.
-/

namespace DesignTokens
namespace Binary

open Float.Model Float.Model.UnpackedFloat

/-!
## The parts of a float
-/

structure IsReduced (m : Nat) (e : ℤ) : Prop where
  digits : m < 2 ^ 53
  least : -1074 ≤ e
  greatest : e ≤ 971
  normal : 2 ^ 52 ≤ m ∨ e = -1074

theorem isReduced_of_ofFloat {x : Float} {negative : Bool} {m : Nat} {e : ℤ}
    (h : ofFloat x = .finite negative m e) : IsReduced m e := by
  have hfraction := fractionField_lt (bitsOf x)
  have hexponent := exponentField_lt (bitsOf x)
  rw [ofFloat_eq] at h
  split at h
  · split at h <;> cases h
  · split at h
    · cases h
      exact ⟨by omega, le_rfl, by omega, .inr rfl⟩
    · cases h
      exact ⟨by omega, by omega, by omega, .inl (by omega)⟩

theorem bits_ext {a b : Bits} (hexponent : exponentField a = exponentField b)
    (hfraction : fractionField a = fractionField b)
    (hsign : isNegative (signField a) = isNegative (signField b)) : a = b := by
  have ha : a.toNat < 2 ^ 64 := a.isLt
  have hb : b.toNat < 2 ^ 64 := b.isLt
  rw [isNegative_signField, isNegative_signField, decide_eq_decide] at hsign
  unfold exponentField at hexponent
  unfold fractionField at hfraction
  apply BitVec.eq_of_toNat_eq
  omega

theorem bitsOf_eq_packedNaN {x : Float} (h : ofFloat x = .notANumber) :
    bitsOf x = packedNaN Format.binary64 := by
  rw [ofFloat_eq] at h
  split at h
  · rename_i htop
    split at h
    · cases h
    · rename_i hfraction
      apply x.toModel.valid.eq_packedNaN
      · exact (unpackExponent_eq_iff (bitsOf x) 2047 (by decide)).mpr htop
      · exact mt (unpackMantissa_eq_zero_iff (bitsOf x)).mp hfraction
  · split at h <;> cases h

theorem eq_of_bitsOf_eq {x y : Float} (h : bitsOf x = bitsOf y) : x = y := by
  rcases x with ⟨⟨a, ha⟩⟩
  rcases y with ⟨⟨b, hb⟩⟩
  have hbits : a = b := UInt64.toBitVec_inj.mp h
  subst hbits
  rfl

theorem fields_of_infinite {x : Float} {negative : Bool} (h : ofFloat x = .infinite negative) :
    exponentField (bitsOf x) = 2047 ∧ fractionField (bitsOf x) = 0 ∧
      isNegative (signField (bitsOf x)) = negative := by
  rw [ofFloat_eq] at h
  split at h
  · rename_i htop
    split at h
    · rename_i hfraction
      cases h
      exact ⟨htop, hfraction, rfl⟩
    · cases h
  · split at h <;> cases h

/-- The leading digit of a mantissa is not kept, but the exponent tells whether there is one. -/
theorem fields_of_finite {x : Float} {negative : Bool} {m : Nat} {e : ℤ}
    (h : ofFloat x = .finite negative m e) :
    exponentField (bitsOf x) = (if m < 2 ^ 52 then 0 else (e + 1075).toNat) ∧
      fractionField (bitsOf x) = m % 2 ^ 52 ∧
      isNegative (signField (bitsOf x)) = negative := by
  have hfraction := fractionField_lt (bitsOf x)
  rw [ofFloat_eq] at h
  split at h
  · split at h <;> cases h
  · split at h
    · rename_i hzero
      cases h
      exact ⟨by rw [if_pos hfraction, hzero], (Nat.mod_eq_of_lt hfraction).symm, rfl⟩
    · cases h
      refine ⟨?_, by omega, rfl⟩
      rw [if_neg (by omega)]
      omega

theorem ofFloat_injective : Function.Injective ofFloat := by
  intro x y hxy
  apply eq_of_bitsOf_eq
  cases hx : ofFloat x with
  | notANumber =>
      rw [bitsOf_eq_packedNaN hx, bitsOf_eq_packedNaN (hxy.symm.trans hx)]
  | infinite negative =>
      rcases fields_of_infinite hx with ⟨hexponent, hfraction, hsign⟩
      rcases fields_of_infinite (hxy.symm.trans hx) with ⟨hexponent', hfraction', hsign'⟩
      exact bits_ext (hexponent.trans hexponent'.symm) (hfraction.trans hfraction'.symm)
        (hsign.trans hsign'.symm)
  | finite negative m e =>
      rcases fields_of_finite hx with ⟨hexponent, hfraction, hsign⟩
      rcases fields_of_finite (hxy.symm.trans hx) with ⟨hexponent', hfraction', hsign'⟩
      exact bits_ext (hexponent.trans hexponent'.symm) (hfraction.trans hfraction'.symm)
        (hsign.trans hsign'.symm)

theorem Denotes.eq_of_ofFloat {x y : Float} {s : Sign} {m : Nat} {e : ℤ}
    (hx : Denotes x (withSign s (m * 2 ^ e))) (hm : 0 < m)
    (hy : ofFloat y = .finite (isNegative s) m e) : x = y := by
  have hpos : (0 : ℚ) < m * 2 ^ e := by positivity
  rcases hx.exists_parts with ⟨s', m', e', hparts, hvalue⟩
  rcases isReduced_of_ofFloat hparts with ⟨hdigits', hleast', _, hnormal'⟩
  rcases isReduced_of_ofFloat hy with ⟨hdigits, hleast, _, hnormal⟩
  have hmagnitude : (m : ℚ) * 2 ^ e = m' * 2 ^ e' := by
    have habs := congrArg (|·|) hvalue
    rwa [abs_withSign, abs_withSign, abs_of_pos hpos, abs_of_nonneg (by positivity)] at habs
  have hsign : s = s' := by
    rw [← hmagnitude] at hvalue
    cases s <;> cases s' <;> simp only [withSign] at hvalue <;> first | rfl | linarith
  have hequal :=
    eq_of_mul_two_zpow_eq hdigits hdigits' hleast hleast' hnormal hnormal' hmagnitude
  rcases hequal with ⟨rfl, rfl⟩
  apply ofFloat_injective
  rw [hparts, hy, hsign]

/-!
## Rounding to a mantissa
-/

/-- How far the numbers that round to a float reach below it, in steps of its exponent. -/
def reachBelow (m : Nat) (e : ℤ) : ℚ :=
  if m = 2 ^ 52 ∧ -1074 < e then 1 / 4 else 1 / 2

/-- Whether a number rounds to the float with this mantissa and exponent. -/
structure RoundsTo (m : Nat) (e : ℤ) (q : ℚ) : Prop where
  lower : (m - reachBelow m e) * 2 ^ e ≤ q
  upper : q ≤ (m + 1 / 2) * 2 ^ e
  lower_of_odd : m % 2 = 1 → (m - reachBelow m e) * 2 ^ e < q
  upper_of_odd : m % 2 = 1 → q < (m + 1 / 2) * 2 ^ e

theorem reachBelow_le (m : Nat) (e : ℤ) : reachBelow m e ≤ 1 / 2 := by
  unfold reachBelow
  split <;> norm_num

theorem reachBelow_pos (m : Nat) (e : ℤ) : 0 < reachBelow m e := by
  unfold reachBelow
  split <;> norm_num

theorem roundsTo_self (m : Nat) (e : ℤ) : RoundsTo m e (m * 2 ^ e) := by
  have hpos : (0 : ℚ) < 2 ^ e := by positivity
  have hreach := reachBelow_pos m e
  have hlower : (m - reachBelow m e) * 2 ^ e < (m : ℚ) * 2 ^ e :=
    mul_lt_mul_of_pos_right (by linarith) hpos
  have hupper : (m : ℚ) * 2 ^ e < (m + 1 / 2) * 2 ^ e :=
    mul_lt_mul_of_pos_right (by linarith) hpos
  exact ⟨hlower.le, hupper.le, fun _ => hlower, fun _ => hupper⟩

theorem roundHalfEven_eq {num den m : Nat} (hden : 0 < den)
    (hlow : 2 * (m * den) ≤ 2 * num + den) (hup : 2 * num ≤ 2 * (m * den) + den)
    (hodd : m % 2 = 1 → 2 * (m * den) < 2 * num + den ∧ 2 * num < 2 * (m * den) + den) :
    roundHalfEven num den = m := by
  have hsplit := Nat.div_add_mod num den
  have hrest := Nat.mod_lt num hden
  unfold roundHalfEven
  generalize num / den = q at hsplit ⊢
  generalize num % den = r at hsplit hrest ⊢
  subst hsplit
  simp only
  rcases lt_trichotomy m q with hlt | rfl | hgt
  · have hstep : (m + 1) * den ≤ q * den := Nat.mul_le_mul_right den hlt
    nlinarith
  · have hcomm := Nat.mul_comm m den
    split
    · rfl
    · rw [if_neg (by omega), if_pos]
      by_contra heven
      have hstrict := hodd (by omega)
      omega
  · have hstep : m ≤ q + 1 := by
      by_contra hfar
      have hfar' : (q + 2) * den ≤ m * den := Nat.mul_le_mul_right den (by omega)
      nlinarith
    obtain rfl : m = q + 1 := by omega
    have hexpand : (q + 1) * den = den * q + den := by ring
    rw [if_neg (by omega)]
    split
    · rfl
    · rw [if_neg]
      intro heven
      have hstrict := hodd (by omega)
      omega

theorem roundHalfEven_scaled {num den m : Nat} {t : ℤ} (hden : 0 < den)
    (hlow : (m - 1 / 2) * 2 ^ t ≤ (num : ℚ) / den) (hup : (num : ℚ) / den ≤ (m + 1 / 2) * 2 ^ t)
    (hodd : m % 2 = 1 →
      (m - 1 / 2) * 2 ^ t < (num : ℚ) / den ∧ (num : ℚ) / den < (m + 1 / 2) * 2 ^ t) :
    roundHalfEven (num * twoPow (-t).toNat) (den * twoPow t.toNat) = m := by
  have hpos : (0 : ℚ) < 2 ^ t := by positivity
  have hden' : 0 < den * twoPow t.toNat := Nat.mul_pos hden (twoPow_pos _)
  have hcast : (0 : ℚ) < (den * twoPow t.toNat : ℕ) := by exact_mod_cast hden'
  rw [← le_div_iff₀ hpos, scaled_quotient, le_div_iff₀ hcast] at hlow
  rw [← div_le_iff₀ hpos, scaled_quotient, div_le_iff₀ hcast] at hup
  rw [← lt_div_iff₀ hpos, ← div_lt_iff₀ hpos, scaled_quotient, lt_div_iff₀ hcast,
    div_lt_iff₀ hcast] at hodd
  generalize num * twoPow (-t).toNat = n at *
  generalize den * twoPow t.toNat = d at *
  apply roundHalfEven_eq hden'
  · have hle : 2 * ((m : ℚ) * d) ≤ 2 * n + d := by linarith
    exact_mod_cast hle
  · have hle : 2 * (n : ℚ) ≤ 2 * (m * d) + d := by linarith
    exact_mod_cast hle
  · intro hbit
    rcases hodd hbit with ⟨hlow', hup'⟩
    have hlt : 2 * ((m : ℚ) * d) < 2 * n + d := by linarith
    have hlt' : 2 * (n : ℚ) < 2 * (m * d) + d := by linarith
    exact ⟨by exact_mod_cast hlt, by exact_mod_cast hlt'⟩

theorem IsScale.le_of_isScale {t t' : ℤ} {q : ℚ} (h : IsScale t q) (h' : IsScale t' q) :
    t ≤ t' := by
  by_contra hlt
  have hlower := h.lower.resolve_left (by have := h'.least; omega)
  have hupper := h'.upper
  have hstep : (2 : ℚ) ^ 53 * 2 ^ t' ≤ 2 ^ 52 * 2 ^ t := by
    rw [two_zpow_add, two_zpow_add]
    exact zpow_le_zpow_right₀ (by norm_num) (by push_cast; omega)
  linarith

theorem IsScale.unique {t t' : ℤ} {q : ℚ} (h : IsScale t q) (h' : IsScale t' q) : t = t' :=
  le_antisymm (h.le_of_isScale h') (h'.le_of_isScale h)

theorem two_zpow_sub_one (e : ℤ) : (2 : ℚ) ^ (e - 1) = 2 ^ e / 2 :=
  zpow_sub_one₀ (by norm_num) e

theorem reachBelow_of_lt {m : Nat} {e : ℤ} (hm : m = 2 ^ 52) (he : -1074 < e) :
    reachBelow m e = 1 / 4 :=
  if_pos ⟨hm, he⟩

namespace RoundsTo

variable {m : Nat} {e : ℤ} {q : ℚ}

theorem pos (h : RoundsTo m e q) (hm : 0 < m) : 0 < q := by
  have hreach := reachBelow_le m e
  have hm' : (1 : ℚ) ≤ m := by exact_mod_cast hm
  have hlow : (0 : ℚ) < (m - reachBelow m e) * 2 ^ e := mul_pos (by linarith) (by positivity)
  exact hlow.trans_le h.lower

theorem lt_of_isReduced (h : RoundsTo m e q) (hreduced : IsReduced m e) :
    q < 2 ^ 53 * 2 ^ e := by
  have hm : (m : ℚ) + 1 ≤ 2 ^ 53 := by exact_mod_cast hreduced.digits
  have hpos : (0 : ℚ) < 2 ^ e := by positivity
  exact h.upper.trans_lt (mul_lt_mul_of_pos_right (by linarith) hpos)

theorem half_le (h : RoundsTo m e q) : (m - 1 / 2) * 2 ^ e ≤ q := by
  have hreach := reachBelow_le m e
  apply le_trans _ h.lower
  exact mul_le_mul_of_nonneg_right (by linarith) (by positivity)

theorem half_lt (h : RoundsTo m e q) (hodd : m % 2 = 1) : (m - 1 / 2) * 2 ^ e < q := by
  have hreach := reachBelow_le m e
  apply lt_of_le_of_lt _ (h.lower_of_odd hodd)
  exact mul_le_mul_of_nonneg_right (by linarith) (by positivity)

/-- What rounds to a float from below the least number of its scale rounds to a power of two. -/
theorem eq_of_lt (h : RoundsTo m e q) (hreduced : IsReduced m e) (he : e ≠ -1074)
    (hq : q < 2 ^ 52 * 2 ^ e) : m = 2 ^ 52 ∧ (2 ^ 53 - 1 / 2) * 2 ^ (e - 1) ≤ q := by
  have hpos : (0 : ℚ) < 2 ^ e := by positivity
  have hle : (m : ℚ) - 1 / 2 < 2 ^ 52 := lt_of_mul_lt_mul_right (h.half_le.trans_lt hq) hpos.le
  have hm : m = 2 ^ 52 := by
    have hlt : (m : ℚ) < (2 ^ 52 + 1 : ℕ) := by
      push_cast
      linarith
    have hlt' : m < 2 ^ 52 + 1 := by exact_mod_cast hlt
    have hge := hreduced.normal.resolve_right he
    omega
  have hleast := hreduced.least
  have hlower := h.lower
  rw [reachBelow_of_lt hm (by omega), hm] at hlower
  refine ⟨hm, le_of_eq_of_le ?_ hlower⟩
  rw [two_zpow_sub_one]
  push_cast
  ring

/-- A quotient that rounds to a float is read as this float. -/
theorem denotes_nearest {num den : Nat} (h : RoundsTo m e ((num : ℚ) / den)) (hden : 0 < den)
    (hm : 0 < m) (hreduced : IsReduced m e) : Denotes (nearest num den) (m * 2 ^ e) := by
  have hnum : 0 < num := by
    rcases Nat.eq_zero_or_pos num with rfl | hnum
    · have hpos := h.pos hm
      rw [Nat.cast_zero, zero_div] at hpos
      exact absurd hpos (lt_irrefl 0)
    · exact hnum
  have hlarge := mul_two_zpow_lt hreduced.digits hreduced.greatest
  have hscale := isScale_quotientExponent hnum hden
  by_cases hlow : e = -1074 ∨ 2 ^ 52 * 2 ^ e ≤ (num : ℚ) / den
  · -- the float has the scale of the quotient
    have hexponent : quotientExponent num den = e :=
      hscale.unique ⟨hreduced.least, h.lt_of_isReduced hreduced, hlow⟩
    refine (denotes_nearest_of_lt hnum hden hexponent ?_ hlarge).2
    exact roundHalfEven_scaled hden (h.half_le) h.upper
      fun hodd => ⟨h.half_lt hodd, h.upper_of_odd hodd⟩
  · -- the quotient lies below a power of two, and rounding carries it there
    rw [not_or, not_le] at hlow
    rcases h.eq_of_lt hreduced hlow.1 hlow.2 with ⟨rfl, hcarry⟩
    have hvalue : ((2 ^ 53 : ℕ) : ℚ) * 2 ^ (e - 1) = ((2 ^ 52 : ℕ) : ℚ) * 2 ^ e := by
      rw [two_zpow_sub_one]
      push_cast
      ring
    have hexponent : quotientExponent num den = e - 1 := by
      refine hscale.unique ⟨by have := hreduced.least; omega, ?_, .inr ?_⟩
      · calc (num : ℚ) / den < 2 ^ 52 * 2 ^ e := hlow.2
          _ = 2 ^ 53 * 2 ^ (e - 1) := by
              rw [two_zpow_sub_one]
              ring
      · apply le_trans _ hcarry
        exact mul_le_mul_of_nonneg_right (by norm_num) (by positivity)
    rw [← hvalue] at hlarge ⊢
    refine (denotes_nearest_of_lt hnum hden hexponent ?_ hlarge).2
    apply roundHalfEven_scaled hden
    · push_cast
      exact hcarry
    · apply hlow.2.le.trans
      rw [two_zpow_sub_one]
      have hpos : (0 : ℚ) < 2 ^ e := by positivity
      push_cast
      linarith
    · intro hodd
      exact absurd hodd (by decide)

end RoundsTo

end Binary
end DesignTokens
