import DesignTokens.Number.Binary
import DesignTokens.Proofs.Number.Mantissa

/-!
# Bits of floats

A float is kept in 64 bits. Taking it apart gives its canonical form, and putting a
canonical form together gives a float with the same number, unless the number is
too large.
-/

namespace DesignTokens
namespace Binary

open Float.Model Float.Model.UnpackedFloat

abbrev Bits : Type :=
  BitVec Format.binary64.numBits

/-!
## The fields of the bits
-/

theorem toNat_unpackMantissa (b : Bits) : (unpackMantissa b).toNat = b.toNat % 2 ^ 52 := by
  simp [unpackMantissa]

theorem toNat_unpackExponent (b : Bits) :
    (unpackExponent b).toNat = b.toNat / 2 ^ 52 % 2 ^ 11 := by
  simp [unpackExponent, Nat.shiftRight_eq_div_pow]

theorem toNat_unpackSign (b : Bits) : (unpackSign b).toNat = b.toNat / 2 ^ 63 % 2 := by
  unfold unpackSign
  simp [Nat.shiftRight_eq_div_pow]

def exponentField (b : Bits) : Nat :=
  b.toNat / 2 ^ 52 % 2 ^ 11

def fractionField (b : Bits) : Nat :=
  b.toNat % 2 ^ 52

def signField (b : Bits) : Sign :=
  Sign.ofBitVec (unpackSign b)

theorem unpackExponent_eq_iff (b : Bits) (n : Nat) (hn : n < 2 ^ 11) :
    unpackExponent b = BitVec.ofNat 11 n ↔ exponentField b = n := by
  rw [← BitVec.toNat_inj, toNat_unpackExponent, BitVec.toNat_ofNat, Nat.mod_eq_of_lt hn]
  rfl

theorem unpackMantissa_eq_zero_iff (b : Bits) : unpackMantissa b = 0#_ ↔ fractionField b = 0 := by
  rw [← BitVec.toNat_inj, toNat_unpackMantissa]
  rfl

theorem toNat_normalMantissa (b : Bits) :
    (1#1 ++ unpackMantissa b).toNat = 2 ^ 52 + fractionField b := by
  rw [BitVec.toNat_append, ← Nat.shiftLeft_add_eq_or_of_lt (unpackMantissa b).isLt,
    toNat_unpackMantissa]
  rfl

theorem unpack_zero {b : Bits} (he : exponentField b = 0) (hm : fractionField b = 0) :
    unpack Format.binary64 b = .zero (signField b) := by
  have h1 : unpackExponent b = 0#_ := (unpackExponent_eq_iff b 0 (by decide)).mpr he
  have h2 : unpackMantissa b = 0#_ := (unpackMantissa_eq_zero_iff b).mpr hm
  unfold UnpackedFloat.unpack
  rw [h1, if_neg (by decide), if_pos rfl, dif_pos h2]
  rfl

theorem unpack_subnormal {b : Bits} (he : exponentField b = 0) (hm : 0 < fractionField b) :
    unpack Format.binary64 b = .finite (signField b) (fractionField b) (-1074) hm := by
  have h1 : unpackExponent b = 0#_ := (unpackExponent_eq_iff b 0 (by decide)).mpr he
  have h2 : unpackMantissa b ≠ 0#_ := by
    rw [ne_eq, unpackMantissa_eq_zero_iff]
    omega
  unfold UnpackedFloat.unpack
  dsimp only
  rw [h1, if_neg (by decide), if_pos rfl, dif_neg h2, UnpackedFloat.finite.injEq]
  exact ⟨rfl, toNat_unpackMantissa b, rfl⟩

theorem unpack_normal {b : Bits} (he : exponentField b ≠ 0) (htop : exponentField b ≠ 2047) :
    unpack Format.binary64 b =
      .finite (signField b) (2 ^ 52 + fractionField b) (exponentField b - 1075)
        (Nat.add_pos_left (Nat.two_pow_pos 52) _) := by
  have h1 : unpackExponent b ≠ 0#_ := by
    rw [ne_eq, show (0#_) = BitVec.ofNat 11 0 from rfl, unpackExponent_eq_iff b 0 (by decide)]
    exact he
  have h2 : unpackExponent b ≠ -1#_ := by
    rw [ne_eq, show (-1#_) = BitVec.ofNat 11 2047 from rfl,
      unpackExponent_eq_iff b 2047 (by decide)]
    exact htop
  unfold UnpackedFloat.unpack
  dsimp only
  rw [if_neg h2, if_neg h1, UnpackedFloat.finite.injEq]
  refine ⟨rfl, toNat_normalMantissa b, ?_⟩
  rw [toNat_unpackExponent]
  rfl

theorem unpack_top {b : Bits} (he : exponentField b = 2047) :
    unpack Format.binary64 b =
      if fractionField b = 0 then .infinity (signField b) else .notANumber := by
  have h1 : unpackExponent b = -1#_ := (unpackExponent_eq_iff b 2047 (by decide)).mpr he
  unfold UnpackedFloat.unpack
  dsimp only
  rw [if_pos h1]
  by_cases hm : fractionField b = 0
  · rw [if_pos ((unpackMantissa_eq_zero_iff b).mpr hm), if_pos hm]
    rfl
  · rw [if_neg (mt (unpackMantissa_eq_zero_iff b).mp hm), if_neg hm]

theorem fractionField_lt (b : Bits) : fractionField b < 2 ^ 52 :=
  Nat.mod_lt _ (by decide)

theorem exponentField_lt (b : Bits) : exponentField b < 2 ^ 11 :=
  Nat.mod_lt _ (by decide)

/-!
## Taking a float apart
-/

theorem mul_two_zpow_lt {m : Nat} {e : ℤ} (hm : m < 2 ^ 53) (he : e ≤ 971) :
    (m : ℚ) * 2 ^ e < 2 ^ (1024 : ℤ) := by
  have hm' : (m : ℚ) < 2 ^ 53 := by exact_mod_cast hm
  calc (m : ℚ) * 2 ^ e < 2 ^ 53 * 2 ^ e := mul_lt_mul_of_pos_right hm' (by positivity)
    _ = 2 ^ (((53 : ℕ) : ℤ) + e) := two_zpow_add 53 e
    _ ≤ 2 ^ (1024 : ℤ) := zpow_le_zpow_right₀ (by norm_num) (by push_cast; omega)

theorem abs_withSign (s : Sign) (q : ℚ) : |withSign s q| = |q| := by
  cases s with
  | negative => exact abs_neg q
  | positive => rfl

/-- What bits stand for: a number below the bound, or none. -/
theorem unpack_cases (b : Bits) :
    (exponentField b = 2047 ∧
      UnpackedFloat.unpack Format.binary64 b =
        if fractionField b = 0 then .infinity (signField b) else .notANumber) ∨
    exponentField b < 2047 ∧
      ∃ q, Canonical (UnpackedFloat.unpack Format.binary64 b) q ∧ |q| < 2 ^ (1024 : ℤ) := by
  have hfraction := fractionField_lt b
  have hexponent := exponentField_lt b
  by_cases htop : exponentField b = 2047
  · exact .inl ⟨htop, unpack_top htop⟩
  · refine .inr ⟨by omega, ?_⟩
    by_cases he : exponentField b = 0
    · rcases Nat.eq_zero_or_pos (fractionField b) with hm | hm
      · rw [unpack_zero he hm]
        exact ⟨0, .zero _, by simp⟩
      · rw [unpack_subnormal he hm]
        refine ⟨_, .finite _ _ _ hm (by omega) le_rfl (.inr rfl), ?_⟩
        rw [abs_withSign, abs_of_nonneg (by positivity)]
        exact mul_two_zpow_lt (by omega) (by decide)
    · rw [unpack_normal he htop]
      refine ⟨_, .finite _ _ _ _ (by omega) (by omega) (.inl (by omega)), ?_⟩
      rw [abs_withSign, abs_of_nonneg (by positivity)]
      exact mul_two_zpow_lt (by omega) (by omega)

/-!
## Putting a float together
-/

theorem exponentField_packComponents (s : Sign) (e : BitVec 11) (m : BitVec 52) :
    exponentField (packComponents Format.binary64 s e m) = e.toNat := by
  have h := toNat_unpackExponent (packComponents Format.binary64 s e m)
  rw [unpackExponent_packComponents] at h
  exact h.symm

theorem fractionField_packComponents (s : Sign) (e : BitVec 11) (m : BitVec 52) :
    fractionField (packComponents Format.binary64 s e m) = m.toNat := by
  have h := toNat_unpackMantissa (packComponents Format.binary64 s e m)
  rw [unpackMantissa_packComponents] at h
  exact h.symm

theorem signField_packComponents (s : Sign) (e : BitVec 11) (m : BitVec 52) :
    signField (packComponents Format.binary64 s e m) = s := by
  unfold signField unpackSign
  simp only [packComponents, BitVec.extractLsb]
  rw [BitVec.extractLsb'_append_eq_of_le (by omega),
    BitVec.extractLsb'_append_eq_of_le (by omega)]
  cases s <;> rfl

theorem le_of_mul_two_zpow_lt {m : Nat} {e : ℤ} (hm : 2 ^ 52 ≤ m)
    (h : (m : ℚ) * 2 ^ e < 2 ^ (1024 : ℤ)) : e ≤ 971 := by
  by_contra hlt
  have hm' : (2 : ℚ) ^ 52 ≤ m := by exact_mod_cast hm
  have hge : (2 : ℚ) ^ (1024 : ℤ) ≤ m * 2 ^ e := by
    calc (2 : ℚ) ^ (1024 : ℤ) ≤ 2 ^ (((52 : ℕ) : ℤ) + e) :=
          zpow_le_zpow_right₀ (by norm_num) (by push_cast; omega)
      _ = 2 ^ 52 * 2 ^ e := (two_zpow_add 52 e).symm
      _ ≤ m * 2 ^ e := mul_le_mul_of_nonneg_right hm' (by positivity)
  exact absurd h (not_lt.mpr hge)

theorem unpack_packComponents_normal (s : Sign) {m k : Nat} (hm : 2 ^ 52 ≤ m)
    (hdigits : m < 2 ^ 53) (hk : 0 < k) (htop : k < 2047) :
    UnpackedFloat.unpack Format.binary64
        (packComponents Format.binary64 s (BitVec.ofNat 11 k) (BitVec.ofNat 52 m)) =
      .finite s m (k - 1075) (by omega) := by
  have he := exponentField_packComponents s (BitVec.ofNat 11 k) (BitVec.ofNat 52 m)
  have hf := fractionField_packComponents s (BitVec.ofNat 11 k) (BitVec.ofNat 52 m)
  have hs := signField_packComponents s (BitVec.ofNat 11 k) (BitVec.ofNat 52 m)
  rw [BitVec.toNat_ofNat, Nat.mod_eq_of_lt (by omega)] at he
  rw [BitVec.toNat_ofNat] at hf
  rw [unpack_normal (by omega) (by omega), UnpackedFloat.finite.injEq]
  exact ⟨hs, by omega, by omega⟩

theorem unpack_packComponents_subnormal (s : Sign) {m : Nat} (hm : 0 < m) (hdigits : m < 2 ^ 52) :
    UnpackedFloat.unpack Format.binary64
        (packComponents Format.binary64 s (BitVec.ofNat 11 0) (BitVec.ofNat 52 m)) =
      .finite s m (-1074) hm := by
  have he := exponentField_packComponents s (BitVec.ofNat 11 0) (BitVec.ofNat 52 m)
  have hf := fractionField_packComponents s (BitVec.ofNat 11 0) (BitVec.ofNat 52 m)
  have hs := signField_packComponents s (BitVec.ofNat 11 0) (BitVec.ofNat 52 m)
  rw [BitVec.toNat_ofNat, Nat.mod_eq_of_lt hdigits] at hf
  rw [unpack_subnormal he (by omega), UnpackedFloat.finite.injEq]
  exact ⟨hs, hf, rfl⟩

theorem unpack_pack {u : UnpackedFloat} {q : ℚ} (h : Canonical u q)
    (hq : |q| < 2 ^ (1024 : ℤ)) :
    UnpackedFloat.unpack Format.binary64 (UnpackedFloat.pack Format.binary64 u) = u := by
  cases h with
  | zero s =>
      have he := exponentField_packComponents s 0 0
      have hm := fractionField_packComponents s 0 0
      have hs := signField_packComponents s 0 0
      exact (unpack_zero he hm).trans (congrArg _ hs)
  | finite s m e hm hdigits hleast hnormal =>
      rw [abs_withSign, abs_of_nonneg (by positivity)] at hq
      have hlarge : e ≤ 971 := by
        rcases hnormal with hnormal | hnormal
        · exact le_of_mul_two_zpow_lt hnormal hq
        · omega
      have hfits : ¬ 2 ^ 11 ≤ (e + 1023 + 52).toNat + 1 := by omega
      -- the leading digit of a mantissa of 53 digits is not stored
      by_cases hnormal' : 2 ^ 52 ≤ m
      · have hlog : m.log2 + 1 = 53 := by
          have h1 := (Nat.le_log2 hm.ne').mpr hnormal'
          have h2 := (Nat.log2_lt hm.ne').mpr hdigits
          omega
        have hpack : UnpackedFloat.pack Format.binary64 (.finite s m e hm) =
            packComponents Format.binary64 s (BitVec.ofNat 11 (e + 1023 + 52).toNat)
              (BitVec.ofNat 52 m) :=
          (if_neg hfits).trans (if_pos hlog)
        rw [hpack, unpack_packComponents_normal s hnormal' hdigits (by omega) (by omega),
          UnpackedFloat.finite.injEq]
        exact ⟨rfl, rfl, by omega⟩
      · have hlog : ¬ m.log2 + 1 = 53 := by
          have h2 := (Nat.log2_lt hm.ne').mpr (not_le.mp hnormal')
          omega
        have hpack : UnpackedFloat.pack Format.binary64 (.finite s m e hm) =
            packComponents Format.binary64 s (BitVec.ofNat 11 0) (BitVec.ofNat 52 m) :=
          (if_neg hfits).trans (if_neg hlog)
        rw [hpack, unpack_packComponents_subnormal s hm (not_le.mp hnormal'),
          UnpackedFloat.finite.injEq]
        exact ⟨rfl, rfl, (hnormal.resolve_left hnormal').symm⟩

/-!
## Floats
-/

/-- Whether a float is finite and denotes this number. -/
def Denotes (x : Float) (q : ℚ) : Prop :=
  Canonical x.toModel.unpack q ∧ |q| < 2 ^ (1024 : ℤ)

theorem denotes_pack {u : UnpackedFloat} {q : ℚ} (h : Canonical u q)
    (hq : |q| < 2 ^ (1024 : ℤ)) : Denotes (Float.ofModel (Float.Model.pack u)) q := by
  refine ⟨?_, hq⟩
  have hunpack : (Float.Model.pack u).unpack = u := unpack_pack h hq
  rwa [hunpack]

theorem Canonical.abs_le_largest {u : UnpackedFloat} {a : ℚ} (h : Canonical u a)
    (ha : |a| < 2 ^ (1024 : ℤ)) : |a| ≤ largest := by
  cases h with
  | zero s =>
      rw [abs_zero]
      exact mul_nonneg (by norm_num) (by positivity)
  | finite s m e hm hdigits hleast hnormal =>
      rw [abs_withSign, abs_of_nonneg (by positivity)] at ha ⊢
      have hlarge : e ≤ 971 := by
        rcases hnormal with hnormal | hnormal
        · exact le_of_mul_two_zpow_lt hnormal ha
        · omega
      have hm' : (m : ℚ) ≤ (2 ^ 53 - 1 : ℤ) := by
        have hle : (m : ℤ) ≤ 2 ^ 53 - 1 := by omega
        exact_mod_cast hle
      exact mul_le_mul hm' (zpow_le_zpow_right₀ (by norm_num) hlarge) (by positivity)
        (by norm_num)

theorem Denotes.abs_le_largest {x : Float} {a : ℚ} (h : Denotes x a) : |a| ≤ largest :=
  h.1.abs_le_largest h.2

end Binary
end DesignTokens
