import DesignTokens.Proofs.Number.Order

/-!
# Integers and floats

The floor of a finite float, the nearest integer and the remainder are those of the
number that the float denotes, and the nearest float of a quotient denotes the
nearest point of the grid.
-/

namespace DesignTokens
namespace Binary

open Float.Model Float.Model.UnpackedFloat

/-!
## The parts of a float
-/

def isNegative : Sign → Bool
  | .negative => true
  | .positive => false

def bitsOf (x : Float) : Bits :=
  x.toModel.toBits.toBitVec

theorem unpack_bitsOf (x : Float) :
    UnpackedFloat.unpack Format.binary64 (bitsOf x) = x.toModel.unpack :=
  rfl

theorem isNegative_signField (b : Bits) :
    isNegative (signField b) = decide (b.toNat / 2 ^ 63 = 1) := by
  have hsign := toNat_unpackSign b
  have hlt : b.toNat < 2 ^ 64 := b.isLt
  have hzero : unpackSign b = 0#1 ↔ b.toNat / 2 ^ 63 % 2 = 0 := by
    rw [← BitVec.toNat_inj, hsign]
    rfl
  unfold signField Sign.ofBitVec
  split
  · rename_i heven
    have hmod := hzero.mp heven
    rw [eq_comm, isNegative, decide_eq_false_iff_not]
    omega
  · rename_i hodd
    have hmod := mt hzero.mpr hodd
    rw [eq_comm, isNegative, decide_eq_true_iff]
    omega

theorem ofFloat_eq (x : Float) :
    ofFloat x =
      if exponentField (bitsOf x) = 2047 then
        if fractionField (bitsOf x) = 0 then .infinite (isNegative (signField (bitsOf x)))
        else .notANumber
      else if exponentField (bitsOf x) = 0 then
        .finite (isNegative (signField (bitsOf x))) (fractionField (bitsOf x)) (-1074)
      else
        .finite (isNegative (signField (bitsOf x))) (2 ^ 52 + fractionField (bitsOf x))
          (exponentField (bitsOf x) - 1075) := by
  rw [isNegative_signField]
  rfl

theorem Denotes.exists_parts {x : Float} {a : ℚ} (h : Denotes x a) :
    ∃ (s : Sign) (m : Nat) (e : ℤ), ofFloat x = .finite (isNegative s) m e ∧
      a = withSign s (m * 2 ^ e) := by
  have hcanonical := h.1
  rw [← unpack_bitsOf] at hcanonical
  rw [ofFloat_eq]
  by_cases htop : exponentField (bitsOf x) = 2047
  · rw [unpack_top htop] at hcanonical
    split at hcanonical <;> cases hcanonical
  · rw [if_neg htop]
    by_cases he : exponentField (bitsOf x) = 0
    · rw [if_pos he]
      refine ⟨signField (bitsOf x), fractionField (bitsOf x), -1074, rfl, ?_⟩
      rcases Nat.eq_zero_or_pos (fractionField (bitsOf x)) with hm | hm
      · rw [unpack_zero he hm] at hcanonical
        cases hcanonical
        rw [hm]
        cases signField (bitsOf x) <;> simp [withSign]
      · rw [unpack_subnormal he hm] at hcanonical
        cases hcanonical
        rfl
    · rw [if_neg he]
      refine ⟨signField (bitsOf x), _, _, rfl, ?_⟩
      rw [unpack_normal he htop] at hcanonical
      cases hcanonical
      rfl

theorem denotes_of_ofFloat {x : Float} {s : Sign} {m : Nat} {e : ℤ}
    (h : ofFloat x = .finite (isNegative s) m e) : Denotes x (withSign s (m * 2 ^ e)) := by
  have hdenotes : ∃ a, Denotes x a := by
    rcases unpack_cases (bitsOf x) with ⟨htop, _⟩ | ⟨_, a, hcanonical, ha⟩
    · rw [ofFloat_eq, if_pos htop] at h
      split at h <;> cases h
    · exact ⟨a, hcanonical, ha⟩
  rcases hdenotes with ⟨a, ha⟩
  rcases ha.exists_parts with ⟨s', m', e', hparts, rfl⟩
  rw [hparts] at h
  injection h with hs hm he
  subst hm he
  cases s <;> cases s' <;> first | exact ha | cases hs

theorem denotes_of_parts {x : Float} {q : ℚ} (m : Nat) (e : ℤ)
    (h : ofFloat x = .finite false m e) (hq : (m : ℚ) * 2 ^ e = q) : Denotes x q := by
  have hdenotes := denotes_of_ofFloat (s := .positive) h
  rwa [withSign, hq] at hdenotes

theorem two_zpow_eq (e : ℤ) :
    (2 : ℚ) ^ e = (twoPow e.toNat : ℕ) / (twoPow (-e).toNat : ℕ) := by
  have hcast : ∀ n : Nat, ((twoPow n : ℕ) : ℚ) = 2 ^ (n : ℤ) := by
    intro n
    rw [zpow_natCast, show twoPow n = 2 ^ n from rfl]
    push_cast
    rfl
  rw [hcast, hcast, ← zpow_sub₀ (by norm_num), Int.toNat_sub_toNat_neg]

/-!
## Integers as floats
-/

theorem denotes_toFloat {n : Nat} (h : n < 2 ^ 53) : Denotes n.toUInt64.toFloat n := by
  have hgrid : IsOnGrid (n : ℚ) := by
    apply isOnGrid_intCast (n := n)
    rw [abs_of_nonneg (by omega)]
    exact_mod_cast h.le
  have hbound : |(n : ℚ)| < 2 ^ (1024 : ℤ) := by
    have hcast : (n : ℚ) < 2 ^ (53 : ℤ) := by exact_mod_cast h
    rw [abs_of_nonneg (Nat.cast_nonneg n)]
    exact hcast.trans_le (zpow_le_zpow_right₀ (by norm_num) (by decide))
  have hnat : n.toUInt64.toNat = n := by
    rw [Nat.toUInt64_eq, UInt64.toNat_ofNat']
    omega
  have hunpacked : UnpackedFloat.ofUInt64 Format.binary64 n.toUInt64 =
      UnpackedFloat.normalize Format.binary64 n 0 .positive := by
    unfold UnpackedFloat.ofUInt64 UnpackedFloat.ofNat UnpackedFloat.ofInt
    rw [hnat]
  rcases canonical_normalize n 0 .positive with ⟨r, hr, hcanonical⟩
  rw [zpow_zero, mul_one, Int.cast_natCast] at hr
  rw [hr.eq_of_isOnGrid hgrid, ← hunpacked] at hcanonical
  exact denotes_pack hcanonical hbound

theorem denotes_ofNat {n : Nat} (h : n < 2 ^ 53) : Denotes (Float.ofNat n) n := by
  have hint := denotes_toFloat h
  have hone : Denotes (Float.ofBits 0x3FF0000000000000) 1 :=
    denotes_of_parts (2 ^ 52) (-52) (by decide +kernel) (by norm_num)
  have hproduct : Float.ofNat n = n.toUInt64.toFloat * Float.ofBits 0x3FF0000000000000 := by
    have hfast : n < 2 ^ 53 ∧ 0 ≤ 22 := ⟨h, by decide⟩
    exact dif_pos hfast
  have hlimit : |(n : ℚ) * 1| < limit := by
    rw [mul_one]
    exact hint.abs_le_largest.trans_lt largest_lt_limit
  rcases hint.mul hone hlimit with ⟨r, hr, hdenotes⟩
  rw [mul_one] at hr
  rw [hproduct, ← hr.eq_of_isOnGrid hint.isOnGrid]
  exact hdenotes

end Binary

open Binary

/-!
## The floor
-/

theorem floor?_of_denotes {x : Float} {a : ℚ} (h : Denotes x a) : floor? x = .ok ⌊a⌋ := by
  rcases h.exists_parts with ⟨s, m, e, hparts, rfl⟩
  unfold floor?
  rw [hparts]
  simp only [Except.ok.injEq]
  have hnumerator :
      ((if isNegative s = true then -(m : ℤ) else m : ℤ) : ℚ) = withSign s m := by
    cases s with
    | negative => exact Int.cast_neg _
    | positive => rfl
  have hvalue : withSign s ((m : ℚ) * 2 ^ e) =
      ((if isNegative s = true then -(m : ℤ) else m) * twoPow e.toNat : ℤ) /
        (twoPow (-e).toNat : ℕ) := by
    rw [Int.cast_mul, hnumerator, Int.cast_natCast, ← withSign_mul, two_zpow_eq, mul_div_assoc]
  rw [hvalue, Rat.floor_intCast_div_natCast]

theorem denotes_half : Denotes 0.5 (1 / 2) :=
  denotes_of_parts (2 ^ 52) (-53) (by decide +kernel) (by norm_num)

/-- The nearest integer of every finite float can be computed. -/
theorem roundHalfUp?_of_denotes {x : Float} {a : ℚ} (h : Denotes x a) :
    ∃ r, IsNearest r (a + 1 / 2) ∧ roundHalfUp? x = .ok ⌊r⌋ := by
  have hlimit : |a + 1 / 2| < limit := by
    have hstep : (1 / 2 : ℚ) < 2 ^ (970 : ℤ) := by
      calc (1 / 2 : ℚ) < 2 ^ (0 : ℤ) := by norm_num
        _ ≤ 2 ^ (970 : ℤ) := zpow_le_zpow_right₀ (by norm_num) (by decide)
    have hsum := largest_add
    have ha := h.abs_le_largest
    have htriangle := abs_add_le a (1 / 2)
    rw [abs_of_nonneg (show (0 : ℚ) ≤ 1 / 2 by norm_num)] at htriangle
    generalize (2 : ℚ) ^ (970 : ℤ) = step at hstep hsum
    linarith
  rcases h.add denotes_half hlimit with ⟨r, hr, hdenotes⟩
  exact ⟨r, hr, floor?_of_denotes hdenotes⟩

end DesignTokens
