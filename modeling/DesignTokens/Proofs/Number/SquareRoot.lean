import DesignTokens.Proofs.Number.Bounded

/-!
# Square roots of floats

The square root of a float is computed from an integer root and a comparison of what
is left. Which rational number with the same integer part is rounded does not matter:
there is one whose square is at most the number under the root.
-/

namespace DesignTokens
namespace Binary

open Float.Model Float.Model.UnpackedFloat

def rootAccuracy (rest root : Nat) : Accuracy :=
  if rest = 0 then .exact else .inexact (if rest ≤ root then .lt else .gt)

/-- What an integer root with its accuracy stands for may be taken to be a rational number. -/
theorem exists_approximates_root {n root : Nat} (hlow : root * root ≤ n) :
    ∃ z : ℚ, root ≤ z ∧ z * z ≤ n ∧
      Approximates (.ofMantissaAndAccuracy root (rootAccuracy (n - root * root) root)) z := by
  have hroot : (0 : ℚ) ≤ root := Nat.cast_nonneg root
  -- a step to which the square hardly reacts
  have hstep : ∃ d : ℚ, 0 < d ∧ d ≤ 1 / 8 ∧ root * d ≤ 1 / 8 := by
    have hpos : (0 : ℚ) < 8 * (root + 1) := by linarith
    refine ⟨1 / (8 * (root + 1)), by positivity, ?_, ?_⟩
    · rw [div_le_div_iff₀ hpos (by norm_num)]
      linarith
    · rw [mul_one_div, div_le_div_iff₀ hpos (by norm_num)]
      linarith
  rcases hstep with ⟨d, hpos, hsmall, hproduct⟩
  have hsquare : d * d ≤ 1 / 64 := by nlinarith
  unfold rootAccuracy
  split
  · have hn : n = root * root := by omega
    refine ⟨root, le_rfl, ?_, Approximates.exact root⟩
    rw [hn, Nat.cast_mul]
  · split
    · have hn : root * root + 1 ≤ n := by omega
      have hn' : (root : ℚ) * root + 1 ≤ n := by exact_mod_cast hn
      refine ⟨root + d, by linarith, by linarith, ?_⟩
      exact ⟨lt_add_of_pos_right _ hpos, add_lt_add_right (by linarith) _⟩
    · have hn : root * root + root + 1 ≤ n := by omega
      have hn' : (root : ℚ) * root + root + 1 ≤ n := by exact_mod_cast hn
      refine ⟨root + 1 / 2 + d, by linarith, by linarith, ?_⟩
      constructor
      · exact lt_add_of_pos_right _ hpos
      · change (root : ℚ) + 1 / 2 + d < root + 1
        linarith

theorem two_pow_le_root {m : Nat} {e t : ℤ} (hm : 0 < m)
    (ht : t = min (e / 2) (max ((totalExponent m e + 1) / 2 - 53) (-1074))) (hleast : -1074 < t) :
    2 ^ 52 ≤ Nat.sqrt (m <<< (e - 2 * t).toNat) := by
  have hgap : 104 ≤ m.log2 + (e - 2 * t).toNat := by
    unfold totalExponent at ht
    omega
  rw [Nat.le_sqrt, Nat.shiftLeft_eq]
  calc 2 ^ 52 * 2 ^ 52 = 2 ^ 104 := by norm_num
    _ ≤ 2 ^ (m.log2 + (e - 2 * t).toNat) := Nat.pow_le_pow_right (by decide) hgap
    _ = 2 ^ m.log2 * 2 ^ (e - 2 * t).toNat := pow_add _ _ _
    _ ≤ m * 2 ^ (e - 2 * t).toNat := Nat.mul_le_mul_right _ (Nat.log2_self_le hm.ne')

theorem le_target_root {m : Nat} {e t : ℤ} (hm : 0 < m)
    (ht : t = min (e / 2) (max ((totalExponent m e + 1) / 2 - 53) (-1074))) :
    t ≤ Format.binary64.targetExponent (totalExponent (Nat.sqrt (m <<< (e - 2 * t).toNat)) t) := by
  rw [targetExponent_eq]
  by_cases hleast : t ≤ -1074
  · omega
  · have hroot := two_pow_le_root hm ht (not_le.mp hleast)
    have hlog := (Nat.le_log2 (by omega)).mpr hroot
    unfold totalExponent
    omega

/-- The points of the grid below an exact root are below the integer root at its scale. -/
theorem IsOnGrid.le_root {f : ℚ} {n : Nat} {t : ℤ} (hf : IsOnGrid f)
    (hroot : t ≤ -1074 ∨ 2 ^ 52 ≤ Nat.sqrt n) (hle : f * f ≤ n * (2 ^ t * 2 ^ t)) :
    f ≤ Nat.sqrt n * 2 ^ t := by
  have hpos : (0 : ℚ) < 2 ^ t := by positivity
  rcases hf with ⟨k, j, hk, hj, rfl⟩
  rcases le_or_gt t j with htj | hjt
  · rw [mul_two_zpow_eq htj] at hle ⊢
    generalize k * 2 ^ (j - t).toNat = p at hle ⊢
    have hsquare : p * p ≤ n := by
      rw [mul_mul_mul_comm] at hle
      exact_mod_cast le_of_mul_le_mul_right hle (mul_pos hpos hpos)
    have hinteger : p ≤ Nat.sqrt n := by
      rcases le_or_gt p 0 with hneg | hgt
      · omega
      · lift p to ℕ using hgt.le
        exact_mod_cast Nat.le_sqrt.mpr (by exact_mod_cast hsquare)
    exact mul_le_mul_of_nonneg_right (by exact_mod_cast hinteger) hpos.le
  · have hdigits : ((2 ^ 52 : ℕ) : ℚ) ≤ Nat.sqrt n := by
      exact_mod_cast hroot.resolve_left (by omega)
    push_cast at hdigits
    exact (mul_two_zpow_le hk hjt).trans (mul_le_mul_of_nonneg_right hdigits hpos.le)

/-- A number between the exact root and the points of the grid below the exact root. -/
structure IsBelowRoot (q a : ℚ) : Prop where
  nonneg : 0 ≤ q
  mul_self_le : q * q ≤ a
  le_of_isOnGrid : ∀ f, IsOnGrid f → f * f ≤ a → f ≤ q

/-- The root of a float is the nearest point of the grid to a number below the exact root. -/
theorem Canonical.sqrt {u : UnpackedFloat} {a : ℚ} (hu : Canonical u a) (ha : 0 ≤ a) :
    ∃ q r, IsBelowRoot q a ∧ IsNearest r q ∧
      Canonical (UnpackedFloat.sqrt Format.binary64 u) r := by
  cases hu with
  | zero s =>
      refine ⟨0, 0, ⟨le_rfl, by norm_num, ?_⟩,
        .of_isOnGrid (isOnGrid_intCast (n := 0) (by decide)), .zero s⟩
      intro f _ hf
      nlinarith
  | finite s m e hm hdigits hleast hnormal =>
      have hpos : (0 : ℚ) < m * 2 ^ e := by positivity
      cases s with
      | negative => exact absurd ha (not_le.mpr (neg_lt_zero.mpr hpos))
      | positive =>
          generalize ht :
            min (e / 2) (max ((totalExponent m e + 1) / 2 - 53) (-1074)) = t
          have hscale : (0 : ℚ) < 2 ^ t := by positivity
          obtain ⟨z, hz, hsquare, happroximates⟩ :=
            exists_approximates_root (Nat.sqrt_le (m <<< (e - 2 * t).toNat))
          rw [← mul_div_cancel_right₀ z hscale.ne'] at happroximates
          obtain ⟨r, hr, hcanonical⟩ :=
            canonical_roundWithAccuracy .positive happroximates (le_target_root hm ht.symm)
          have hsqrt : UnpackedFloat.sqrt Format.binary64 (.finite .positive m e hm) =
              roundWithAccuracy Format.binary64 .positive (Nat.sqrt (m <<< (e - 2 * t).toNat)) t
                (rootAccuracy (m <<< (e - 2 * t).toNat -
                  Nat.sqrt (m <<< (e - 2 * t).toNat) * Nat.sqrt (m <<< (e - 2 * t).toNat))
                  (Nat.sqrt (m <<< (e - 2 * t).toNat))) := by
            rw [← ht]
            rfl
          have hroot : t ≤ -1074 ∨ 2 ^ 52 ≤ Nat.sqrt (m <<< (e - 2 * t).toNat) := by
            rcases le_or_gt t (-1074) with hleast | hgt
            · exact .inl hleast
            · exact .inr (two_pow_le_root hm ht.symm hgt)
          have hvalue : ((m <<< (e - 2 * t).toNat : ℕ) : ℚ) * (2 ^ t * 2 ^ t) = m * 2 ^ e := by
            rw [Nat.shiftLeft_eq]
            push_cast
            rw [mul_assoc, ← zpow_natCast, ← zpow_add₀ (by norm_num),
              ← zpow_add₀ (by norm_num), Int.toNat_of_nonneg (by omega)]
            congr 2
            omega
          have hnonneg : 0 ≤ z := (Nat.cast_nonneg _).trans hz
          refine ⟨z * 2 ^ t, r, ⟨by positivity, ?_, ?_⟩, hr, hsqrt ▸ hcanonical⟩
          · calc z * 2 ^ t * (z * 2 ^ t) = z * z * (2 ^ t * 2 ^ t) := by ring
              _ ≤ (m <<< (e - 2 * t).toNat : ℕ) * (2 ^ t * 2 ^ t) :=
                  mul_le_mul_of_nonneg_right hsquare (by positivity)
              _ = m * 2 ^ e := hvalue
          · intro f hf hle
            apply (hf.le_root hroot (hle.trans_eq hvalue.symm)).trans
            exact mul_le_mul_of_nonneg_right hz hscale.le

/-- A number that lies to the points of the grid as an exact root does. -/
structure IsRoot (r a : ℚ) : Prop where
  le_of_le : ∀ {f}, IsOnGrid f → 0 ≤ f → a ≤ f * f → r ≤ f
  ge_of_ge : ∀ {f}, IsOnGrid f → f * f ≤ a → f ≤ r

theorem IsBelowRoot.isRoot {q r a : ℚ} (h : IsBelowRoot q a) (hr : IsNearest r q) :
    IsRoot r a := by
  constructor
  · intro f hf hnonneg hle
    apply hr.le_of_le hf
    exact (mul_self_le_mul_self_iff h.nonneg hnonneg).mpr (h.mul_self_le.trans hle)
  · intro f hf hle
    exact hr.ge_of_ge hf (h.le_of_isOnGrid f hf hle)

theorem Denotes.sqrt {x : Float} {a : ℚ} (hx : Denotes x a) (ha : 0 ≤ a) :
    ∃ r, IsRoot r a ∧ Denotes x.sqrt r := by
  rcases hx.1.sqrt ha with ⟨q, r, hq, hr, hcanonical⟩
  have hlimit : |q| < limit := by
    rw [abs_of_nonneg hq.nonneg]
    by_contra hge
    have hone : 1 < limit := pow_zero (2 : ℚ) ▸ two_pow_lt_limit (n := 0) (by decide)
    have hsquare := mul_self_le_mul_self limit_pos.le (not_lt.mp hge)
    have hlimit : limit < limit * limit := lt_mul_of_one_lt_left limit_pos hone
    have hbound := (le_abs_self a).trans_lt (hx.abs_le_largest.trans_lt largest_lt_limit)
    exact absurd (hsquare.trans hq.mul_self_le) (not_le.mpr (hbound.trans hlimit))
  exact ⟨r, hq.isRoot hr, denotes_pack hcanonical (hr.abs_lt_two_zpow hlimit)⟩

/-- Floats that denote the same number have the same root; zero is apart for its sign. -/
theorem Denotes.sqrt_eq {x y : Float} {a : ℚ} (hx : Denotes x a) (hy : Denotes y a)
    (ha : a ≠ 0) : x.sqrt = y.sqrt := by
  have hunpacked := hx.1.unique hy.1 rfl ha
  change Float.ofModel (Float.Model.pack (UnpackedFloat.sqrt Format.binary64 x.toModel.unpack)) =
    Float.ofModel (Float.Model.pack (UnpackedFloat.sqrt Format.binary64 y.toModel.unpack))
  rw [hunpacked]

theorem Denotes.within_sqrt {x : Float} {a : ℚ} {n : Nat} (hx : Denotes x a) (ha : 0 ≤ a)
    (hle : a ≤ 2 ^ n * 2 ^ n) : Within n x.sqrt := by
  rcases hx.sqrt ha with ⟨r, hr, hdenotes⟩
  apply hdenotes.within
  rw [abs_of_nonneg (hr.ge_of_ge (isOnGrid_intCast (n := 0) (by decide)) (by simpa using ha))]
  exact hr.le_of_le (isOnGrid_two_pow n) (by positivity) hle

/-- The roots of different integers are apart. -/
theorem IsRoot.step_le_sub {r r' : ℚ} {n n' : ℕ} (h : IsRoot r n) (h' : IsRoot r' n')
    (hlt : n < n') (hbound : n < 2 ^ 18) : 1 / 2 ^ 12 ≤ r' - r := by
  -- two neighbouring multiples of the step lie between the two roots
  generalize hs : Nat.sqrt (n * 2 ^ 24) = s
  have hlow : s * s ≤ n * 2 ^ 24 := hs ▸ Nat.sqrt_le (n * 2 ^ 24)
  have hhigh : n * 2 ^ 24 < (s + 1) * (s + 1) := hs ▸ Nat.lt_succ_sqrt (n * 2 ^ 24)
  have hsmall : s < 2 ^ 21 := by
    by_contra hge
    have hsquare := Nat.mul_self_le_mul_self (not_lt.mp hge)
    omega
  have hnext : (s + 2) * (s + 2) ≤ n' * 2 ^ 24 := by nlinarith
  have hgrid : ∀ i : ℕ, i < 2 ^ 22 → IsOnGrid ((i : ℚ) / 2 ^ 12) := by
    intro i hi
    have hdigits : |(i : ℤ)| ≤ 2 ^ 53 := by
      rw [abs_of_nonneg (by omega)]
      omega
    have hgrid := isOnGrid_div_two_pow (k := 12) hdigits (by decide)
    rwa [Int.cast_natCast] at hgrid
  have hbelow : r ≤ ((s + 1 : ℕ) : ℚ) / 2 ^ 12 := by
    apply h.le_of_le (hgrid _ (by omega)) (by positivity)
    rw [div_mul_div_comm, le_div_iff₀ (by positivity)]
    have hcast : n * (2 ^ 12 * 2 ^ 12) ≤ (s + 1) * (s + 1) := by omega
    exact_mod_cast hcast
  have habove : ((s + 2 : ℕ) : ℚ) / 2 ^ 12 ≤ r' := by
    apply h'.ge_of_ge (hgrid _ (by omega))
    rw [div_mul_div_comm, div_le_iff₀ (by positivity)]
    have hcast : (s + 2) * (s + 2) ≤ n' * (2 ^ 12 * 2 ^ 12) := by omega
    exact_mod_cast hcast
  push_cast at hbelow habove
  linarith

end Binary
end DesignTokens
