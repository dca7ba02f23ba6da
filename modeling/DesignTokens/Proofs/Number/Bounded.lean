import DesignTokens.Proofs.Number.Quotient

/-!
# Bounded floats

A chain of a few operations on floats of moderate size stays finite, so that its
result has an integer below it. The bounds are powers of two, which are on the grid
and hence kept by rounding.
-/

namespace DesignTokens
namespace Binary

/-- Whether a float is finite and at most two to the power `n` in magnitude. -/
def Within (n : Nat) (x : Float) : Prop :=
  ∃ a, Denotes x a ∧ |a| ≤ 2 ^ n

def IsFraction (x : Float) : Prop :=
  ∃ a, Denotes x a ∧ 0 ≤ a ∧ a ≤ 1

theorem isOnGrid_two_pow (n : Nat) : IsOnGrid (2 ^ n) := by
  rw [← zpow_natCast]
  exact isOnGrid_two_zpow (by omega)

theorem two_pow_lt_limit {n : Nat} (h : n ≤ 1000) : (2 : ℚ) ^ n < limit := by
  have hpow : (2 : ℚ) ^ n ≤ 2 ^ (1000 : ℤ) := by
    rw [← zpow_natCast]
    exact zpow_le_zpow_right₀ (by norm_num) (by omega)
  have hstep : (2 : ℚ) ^ (970 : ℤ) ≤ 2 ^ (1000 : ℤ) :=
    zpow_le_zpow_right₀ (by norm_num) (by decide)
  have htop : (2 : ℚ) ^ (1002 : ℤ) ≤ 2 ^ (1024 : ℤ) :=
    zpow_le_zpow_right₀ (by norm_num) (by decide)
  have hfour : (2 : ℚ) ^ (1002 : ℤ) = 4 * 2 ^ (1000 : ℤ) := by
    rw [show (1002 : ℤ) = 2 + 1000 by decide, zpow_add₀ (by norm_num)]
    norm_num
  have hpos : (0 : ℚ) < 2 ^ (1000 : ℤ) := zpow_pos (by norm_num) _
  unfold limit
  generalize (2 : ℚ) ^ (1000 : ℤ) = bound at *
  generalize (2 : ℚ) ^ (970 : ℤ) = step at *
  generalize (2 : ℚ) ^ (1002 : ℤ) = top at *
  generalize (2 : ℚ) ^ (1024 : ℤ) = limit at *
  linarith

theorem IsFraction.within {x : Float} (h : IsFraction x) : Within 0 x := by
  rcases h with ⟨a, ha, hnonneg, hle⟩
  exact ⟨a, ha, by rwa [abs_of_nonneg hnonneg, pow_zero]⟩

theorem Denotes.within {x : Float} {a : ℚ} {n : Nat} (h : Denotes x a) (ha : |a| ≤ 2 ^ n) :
    Within n x :=
  ⟨a, h, ha⟩

theorem within_ofNat {n k : Nat} (h : n ≤ 2 ^ k) (hk : k ≤ 52) : Within k (Float.ofNat n) := by
  have hdigits : n < 2 ^ 53 := h.trans_lt (Nat.pow_lt_pow_right (by decide) (by omega))
  apply (denotes_ofNat hdigits).within
  rw [abs_of_nonneg (Nat.cast_nonneg n)]
  exact_mod_cast h

namespace Within

variable {x y : Float} {m n : Nat}

theorem mono (h : Within m x) (hle : m ≤ n) : Within n x := by
  rcases h with ⟨a, ha, hbound⟩
  exact ⟨a, ha, hbound.trans (pow_le_pow_right₀ (by norm_num) hle)⟩

theorem add (hx : Within n x) (hy : Within n y) (hn : n < 1000) : Within (n + 1) (x + y) := by
  rcases hx with ⟨a, ha, hxa⟩
  rcases hy with ⟨b, hb, hyb⟩
  have hsum : |a + b| ≤ 2 ^ (n + 1) := by
    rw [pow_succ]
    linarith [abs_add_le a b]
  rcases ha.add hb (hsum.trans_lt (two_pow_lt_limit hn)) with ⟨r, hr, hdenotes⟩
  exact ⟨r, hdenotes, hr.abs_le_of_abs_le (isOnGrid_two_pow _) hsum⟩

theorem sub (hx : Within n x) (hy : Within n y) (hn : n < 1000) : Within (n + 1) (x - y) := by
  rcases hx with ⟨a, ha, hxa⟩
  rcases hy with ⟨b, hb, hyb⟩
  have hdifference : |a - b| ≤ 2 ^ (n + 1) := by
    rw [pow_succ]
    linarith [abs_sub a b]
  rcases ha.sub hb (hdifference.trans_lt (two_pow_lt_limit hn)) with ⟨r, hr, hdenotes⟩
  exact ⟨r, hdenotes, hr.abs_le_of_abs_le (isOnGrid_two_pow _) hdifference⟩

theorem mul (hx : Within m x) (hy : Within n y) (hn : m + n ≤ 1000) : Within (m + n) (x * y) := by
  rcases hx with ⟨a, ha, hxa⟩
  rcases hy with ⟨b, hb, hyb⟩
  have hproduct : |a * b| ≤ 2 ^ (m + n) := by
    rw [abs_mul, pow_add]
    exact mul_le_mul hxa hyb (abs_nonneg b) (pow_nonneg (by norm_num) m)
  rcases ha.mul hb (hproduct.trans_lt (two_pow_lt_limit hn)) with ⟨r, hr, hdenotes⟩
  exact ⟨r, hdenotes, hr.abs_le_of_abs_le (isOnGrid_two_pow _) hproduct⟩

theorem div {b : ℚ} (hx : Within n x) (hy : Denotes y b) (hb : 1 ≤ b) (hn : n ≤ 1000) :
    Within n (x / y) := by
  rcases hx with ⟨a, ha, hxa⟩
  have hpos : 0 < b := by linarith
  have hquotient : |a / b| ≤ 2 ^ n := by
    rw [abs_div, abs_of_pos hpos]
    exact (div_le_self (abs_nonneg a) hb).trans hxa
  rcases ha.div hy hpos.ne' (hquotient.trans_lt (two_pow_lt_limit hn)) with ⟨r, hr, hdenotes⟩
  exact ⟨r, hdenotes, hr.abs_le_of_abs_le (isOnGrid_two_pow _) hquotient⟩

end Within

/-!
## Whole numbers
-/

theorem intCast_lt_limit {k : ℤ} (h : |k| ≤ 2 ^ 53) : |(k : ℚ)| < limit := by
  have hcast : |(k : ℚ)| ≤ 2 ^ 53 := by exact_mod_cast h
  exact hcast.trans_lt (two_pow_lt_limit (by decide))

theorem Denotes.intCast_of_isNearest {x : Float} {k : ℤ} {r : ℚ} (hk : |k| ≤ 2 ^ 53)
    (hr : IsNearest r k) (hx : Denotes x r) : Denotes x k := by
  rwa [hr.eq_of_isOnGrid (isOnGrid_intCast hk)] at hx

namespace Denotes

variable {x y : Float} {a b : ℤ}

/-- Sums, differences and products of whole numbers are exact if they have 53 digits. -/
theorem add_intCast (hx : Denotes x a) (hy : Denotes y b) (h : |a + b| ≤ 2 ^ 53) :
    Denotes (x + y) (a + b : ℤ) := by
  have hlimit := intCast_lt_limit h
  rw [Int.cast_add] at hlimit
  rcases hx.add hy hlimit with ⟨r, hr, hdenotes⟩
  rw [← Int.cast_add] at hr
  exact hdenotes.intCast_of_isNearest h hr

theorem sub_intCast (hx : Denotes x a) (hy : Denotes y b) (h : |a - b| ≤ 2 ^ 53) :
    Denotes (x - y) (a - b : ℤ) := by
  have hlimit := intCast_lt_limit h
  rw [Int.cast_sub] at hlimit
  rcases hx.sub hy hlimit with ⟨r, hr, hdenotes⟩
  rw [← Int.cast_sub] at hr
  exact hdenotes.intCast_of_isNearest h hr

theorem mul_intCast (hx : Denotes x a) (hy : Denotes y b) (h : |a * b| ≤ 2 ^ 53) :
    Denotes (x * y) (a * b : ℤ) := by
  have hlimit := intCast_lt_limit h
  rw [Int.cast_mul] at hlimit
  rcases hx.mul hy hlimit with ⟨r, hr, hdenotes⟩
  rw [← Int.cast_mul] at hr
  exact hdenotes.intCast_of_isNearest h hr

end Denotes

/-!
## Dominated quotients
-/

theorem IsOnGrid.two_mul {q : ℚ} (h : IsOnGrid q) : IsOnGrid (2 * q) := by
  rcases h with ⟨m, e, hm, he, rfl⟩
  refine ⟨m, e + 1, hm, by omega, ?_⟩
  rw [zpow_add_one₀ (by norm_num)]
  ring

theorem IsNearest.le_two_mul {r q : ℚ} (h : IsNearest r q) (hr : 0 < r) : q ≤ 2 * r := by
  by_contra hlt
  have hd := h.le_dist (2 * r) h.onGrid.two_mul
  rw [abs_of_nonneg (by linarith), abs_of_nonneg (by linarith)] at hd
  linarith

/--
The quotient of two rounded numbers is moderate if the dividend is at most the divisor
before rounding, however small both are.
-/
theorem Denotes.within_div {x y : Float} {a b p q : ℚ} (hx : Denotes x a) (hy : Denotes y b)
    (ha : IsNearest a p) (hb : IsNearest b q) (hpos : 0 < b) (hle : |p| ≤ q) :
    Within 1 (x / y) := by
  have habs : |a| ≤ 2 * b :=
    ha.abs_le_of_abs_le hb.onGrid.two_mul (hle.trans (hb.le_two_mul hpos))
  have hquotient : |a / b| ≤ 2 ^ 1 := by
    rw [abs_div, abs_of_pos hpos, div_le_iff₀ hpos, pow_one]
    exact habs
  rcases hx.div hy hpos.ne' (hquotient.trans_lt (two_pow_lt_limit (by decide))) with
      ⟨r, hr, hdenotes⟩
  exact ⟨r, hdenotes, hr.abs_le_of_abs_le (isOnGrid_two_pow 1) hquotient⟩

theorem IsOnGrid.exists_steps {q : ℚ} (h : IsOnGrid q) : ∃ k : ℤ, q = k * 2 ^ (-1074 : ℤ) := by
  rcases h with ⟨m, e, _, he, rfl⟩
  refine ⟨m * 2 ^ (e + 1074).toNat, ?_⟩
  rw [Int.cast_mul, Int.cast_pow, Int.cast_ofNat, mul_assoc, ← zpow_natCast,
    ← zpow_add₀ (by norm_num), Int.toNat_of_nonneg (by omega)]
  congr 2
  omega

theorem IsOnGrid.step_le_sub {a b : ℚ} (ha : IsOnGrid a) (hb : IsOnGrid b) (h : b < a) :
    2 ^ (-1074 : ℤ) ≤ a - b := by
  have hpos : (0 : ℚ) < 2 ^ (-1074 : ℤ) := zpow_pos (by norm_num) _
  rcases ha.exists_steps with ⟨k, rfl⟩
  rcases hb.exists_steps with ⟨j, rfl⟩
  have hlt : j < k := by
    have hcast := lt_of_mul_lt_mul_right h hpos.le
    exact_mod_cast hcast
  have hone : (1 : ℚ) ≤ k - j := by exact_mod_cast Int.sub_pos_of_lt hlt
  calc (2 : ℚ) ^ (-1074 : ℤ) = 1 * 2 ^ (-1074 : ℤ) := (one_mul _).symm
    _ ≤ (k - j) * 2 ^ (-1074 : ℤ) := mul_le_mul_of_nonneg_right hone hpos.le
    _ = k * 2 ^ (-1074 : ℤ) - j * 2 ^ (-1074 : ℤ) := sub_mul _ _ _

theorem IsNearest.pos_of_lt {r a b : ℚ} (h : IsNearest r (a - b)) (ha : IsOnGrid a)
    (hb : IsOnGrid b) (hlt : b < a) : 0 < r :=
  lt_of_lt_of_le (zpow_pos (by norm_num) _)
    (h.ge_of_ge (isOnGrid_two_zpow le_rfl) (ha.step_le_sub hb hlt))

end Binary

open Binary

/-!
## Results that exist
-/

theorem roundHalfUp?_of_within {x : Float} {n : Nat} (h : Within n x) :
    ∃ k, roundHalfUp? x = .ok k ∧ |k| ≤ 2 ^ (n + 1) := by
  rcases h with ⟨a, ha, hxa⟩
  rcases roundHalfUp?_of_denotes ha with ⟨r, hr, hround⟩
  refine ⟨⌊r⌋, hround, ?_⟩
  have hone : (1 : ℚ) ≤ 2 ^ n := one_le_pow₀ (by norm_num)
  have hsum : |a + 1 / 2| ≤ 2 ^ (n + 1) := by
    have htriangle := abs_add_le a (1 / 2)
    rw [abs_of_nonneg (show (0 : ℚ) ≤ 1 / 2 by norm_num)] at htriangle
    rw [pow_succ]
    linarith
  have hbound := hr.abs_le_of_abs_le (isOnGrid_two_pow _) hsum
  rw [abs_le] at hbound ⊢
  constructor
  · rw [Int.le_floor]
    push_cast
    exact hbound.1
  · have hfloor : ((⌊r⌋ : ℤ) : ℚ) ≤ ((2 ^ (n + 1) : ℤ) : ℚ) := by
      push_cast
      exact (Int.floor_le r).trans hbound.2
    exact_mod_cast hfloor

theorem isFraction_nearest {num den : Nat} (hden : 0 < den) (hle : num ≤ den) :
    IsFraction (nearest num den) := by
  have hden' : (0 : ℚ) < den := by exact_mod_cast hden
  have hratio : (num : ℚ) / den ≤ 1 := by
    rw [div_le_one hden']
    exact_mod_cast hle
  have hnonneg : (0 : ℚ) ≤ (num : ℚ) / den := by positivity
  have hlimit : (num : ℚ) / den < limit := by
    apply hratio.trans_lt
    rw [← pow_zero 2]
    exact two_pow_lt_limit (by decide)
  rcases denotes_nearest num hden hlimit with ⟨r, hr, hdenotes⟩
  refine ⟨r, hdenotes, ?_, ?_⟩
  · exact hr.ge_of_ge (isOnGrid_intCast (n := 0) (by decide)) (by exact_mod_cast hnonneg)
  · exact hr.le_of_le (isOnGrid_intCast (n := 1) (by decide)) (by exact_mod_cast hratio)

def Binary.nearestInt (k : ℤ) : Float :=
  signed (k < 0) (nearest k.natAbs 1)

theorem floatOfInt?_eq {k : ℤ} (h : |(k : ℚ)| < limit) :
    floatOfInt? k = .ok (nearestInt k) ∧ ∃ r, IsNearest r k ∧ Denotes (nearestInt k) r := by
  have hvalue : ((k.natAbs : ℕ) : ℚ) / (1 : ℕ) = |(k : ℚ)| := by
    rw [Nat.cast_one, div_one, Nat.cast_natAbs, Int.cast_abs]
  rcases denotes_nearest k.natAbs Nat.one_pos (hvalue ▸ h) with ⟨r, hr, hdenotes⟩
  rw [hvalue] at hr
  constructor
  · unfold floatOfInt?
    simp only
    rw [hdenotes.isInf_eq]
    rfl
  · unfold nearestInt
    rcases lt_or_ge k 0 with hneg | hnonneg
    · rw [decide_eq_true hneg]
      rw [abs_of_neg (by exact_mod_cast hneg)] at hr
      exact ⟨-r, neg_neg (k : ℚ) ▸ hr.neg, hdenotes.neg⟩
    · rw [decide_eq_false (not_lt.mpr hnonneg)]
      rw [abs_of_nonneg (by exact_mod_cast hnonneg)] at hr
      exact ⟨r, hr, hdenotes⟩

theorem denotes_nearestInt {k : ℤ} (h : |k| ≤ 2 ^ 53) : Denotes (nearestInt k) k := by
  rcases (floatOfInt?_eq (intCast_lt_limit h)).2 with ⟨r, hr, hdenotes⟩
  exact hdenotes.intCast_of_isNearest h hr

theorem floatOfInt?_of_le {k : ℤ} {n : Nat} (h : |k| ≤ 2 ^ n) (hn : n ≤ 1000) :
    ∃ x, floatOfInt? k = .ok x ∧ Within n x := by
  have hvalue : |(k : ℚ)| ≤ 2 ^ n := by exact_mod_cast h
  rcases floatOfInt?_eq (hvalue.trans_lt (two_pow_lt_limit hn)) with ⟨hrun, r, hr, hdenotes⟩
  exact ⟨_, hrun, hdenotes.within (hr.abs_le_of_abs_le (isOnGrid_two_pow n) hvalue)⟩

theorem quotient?_of_le {k : ℤ} {den : Nat} (hden : 0 < den) (hnonneg : 0 ≤ k) (hle : k ≤ den) :
    ∃ x, quotient? k den = .ok x ∧ IsFraction x := by
  have hfraction : IsFraction (nearest k.natAbs den) := isFraction_nearest hden (by omega)
  refine ⟨nearest k.natAbs den, ?_, hfraction⟩
  rcases hfraction with ⟨r, hdenotes, _⟩
  unfold quotient?
  simp only
  rw [hdenotes.isInf_eq, decide_eq_false (by omega)]
  rfl

theorem remainder?_le_of_denotes {x : Float} {a : ℚ} {modulus : Nat} (hx : Denotes x a)
    (hpos : 0 < modulus) (hle : modulus ≤ 2 ^ 53) :
    ∃ y r, remainder? x modulus = .ok y ∧ Denotes y r ∧ |r| ≤ modulus := by
  rcases hx.exists_parts with ⟨s, m, e, hparts, _⟩
  have hgrid : IsOnGrid modulus := by
    rw [← Int.cast_natCast]
    apply isOnGrid_intCast
    rw [Nat.abs_cast]
    exact_mod_cast hle
  have hmodulus : (modulus : ℚ) ≤ 2 ^ 53 := by exact_mod_cast hle
  have hden := twoPow_pos (-e).toNat
  have hden' : (0 : ℚ) < (twoPow (-e).toNat : ℕ) := by exact_mod_cast hden
  have hrest := Nat.mod_lt (m * twoPow e.toNat) (Nat.mul_pos hpos hden)
  have hratio : ((m * twoPow e.toNat % (modulus * twoPow (-e).toNat) : ℕ) : ℚ) /
      (twoPow (-e).toNat : ℕ) ≤ modulus := by
    rw [div_le_iff₀ hden']
    exact_mod_cast hrest.le
  rcases denotes_nearest _ hden
      (hratio.trans_lt (hmodulus.trans_lt (two_pow_lt_limit (by decide)))) with ⟨r, hr, hdenotes⟩
  have hbound : |r| ≤ modulus := by
    apply hr.abs_le_of_abs_le hgrid
    rwa [abs_of_nonneg (by positivity)]
  unfold remainder?
  rw [hparts]
  cases hsign : isNegative s with
  | false => exact ⟨_, r, rfl, hdenotes, hbound⟩
  | true => exact ⟨_, -r, rfl, hdenotes.neg, by rwa [abs_neg]⟩

theorem remainder?_of_denotes {x : Float} {a : ℚ} {modulus n : Nat} (hx : Denotes x a)
    (hpos : 0 < modulus) (hle : modulus ≤ 2 ^ n) (hn : n ≤ 53) :
    ∃ y, remainder? x modulus = .ok y ∧ Within n y := by
  have hdigits := hle.trans (Nat.pow_le_pow_right (by decide) hn)
  rcases remainder?_le_of_denotes hx hpos hdigits with ⟨y, r, hrun, hdenotes, hbound⟩
  exact ⟨y, hrun, hdenotes.within (hbound.trans (by exact_mod_cast hle))⟩

theorem denotes_clamp {x lo hi : Float} {a l h : ℚ} (hx : Denotes x a) (hlo : Denotes lo l)
    (hhi : Denotes hi h) (hle : l ≤ h) : ∃ b, Denotes (clamp lo hi x) b ∧ l ≤ b ∧ b ≤ h := by
  have hmin : ∃ c, Denotes (if x < hi then x else hi) c ∧ c ≤ h := by
    split
    · rename_i hlt
      exact ⟨a, hx, ((hx.lt_iff hhi).mp hlt).le⟩
    · exact ⟨h, hhi, le_rfl⟩
  rcases hmin with ⟨c, hc, hch⟩
  unfold clamp
  simp only
  generalize (if x < hi then x else hi) = y at hc ⊢
  split
  · rename_i hlt
    exact ⟨c, hc, ((hlo.lt_iff hc).mp hlt).le, hch⟩
  · exact ⟨l, hlo, le_rfl, hle⟩

end DesignTokens
