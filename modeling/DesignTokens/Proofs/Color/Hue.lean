import DesignTokens.Proofs.Color.Canonical

/-!
# Colors of a hue

The channels of a hue are interpolated between two levels. In exact numbers they would be
fractions, and the floats miss these by far less than half a step of a channel. So a color of
hue, saturation and lightness lies in the cube of channels, like every other color that is
read.
-/

namespace DesignTokens
namespace Binary

/-!
## Numbers that are nearly computed
-/

/-- Whether a float denotes a number that is at most `n` small steps away from `a`. -/
def IsNear (n : ℕ) (a : ℚ) (x : Float) : Prop :=
  ∃ b, Denotes x b ∧ |b - a| ≤ n / 2 ^ 40

theorem Denotes.isNear {x : Float} {a : ℚ} (h : Denotes x a) : IsNear 0 a x :=
  ⟨a, h, by rw [sub_self, abs_zero, Nat.cast_zero, zero_div]⟩

namespace IsNear

variable {x y : Float} {a b : ℚ} {m n k : ℕ}

theorem mono (h : IsNear m a x) (hle : m ≤ n) : IsNear n a x := by
  rcases h with ⟨b, hb, hdist⟩
  refine ⟨b, hb, hdist.trans ?_⟩
  have hcast : (m : ℚ) ≤ n := by exact_mod_cast hle
  exact div_le_div_of_nonneg_right hcast (by positivity)

theorem abs_le_of_dist {q : ℚ} (hq : |q - a| ≤ n / 2 ^ 40) (hn : n ≤ 2 ^ 40) :
    |q| ≤ |a| + 1 := by
  have hcast : (n : ℚ) ≤ 2 ^ 40 := by exact_mod_cast hn
  have hone : (n : ℚ) / 2 ^ 40 ≤ 1 := (div_le_one (by positivity)).mpr hcast
  have htriangle := abs_add_le (q - a) a
  rw [sub_add_cancel] at htriangle
  linarith

/-- An operation adds a step to those by which its exact result is away. -/
theorem exists_rounded {q : ℚ} (hq : |q - a| ≤ n / 2 ^ 40) (ha : |a| ≤ 63) (hk : n < k)
    (hmax : k ≤ 2 ^ 40) (hx : |q| < limit → ∃ r, IsNearest r q ∧ Denotes x r) : IsNear k a x := by
  have hbound : |q| ≤ 2 ^ 6 := by linarith [abs_le_of_dist hq (hk.le.trans hmax)]
  have hlimit := hbound.trans_lt (two_pow_lt_limit (by decide))
  rcases hx hlimit with ⟨r, hr, hdenotes⟩
  have hround := hr.abs_sub_le (k := 40) (by decide) (by linarith)
  refine IsNear.mono ⟨r, hdenotes, ?_⟩ hk
  have htriangle := abs_sub_le r q a
  rw [abs_sub_comm r q] at htriangle
  rw [Nat.cast_succ, add_div]
  linarith

theorem add (hx : IsNear m a x) (hy : IsNear n b y) (hab : |a + b| ≤ 63) (hk : m + n < k)
    (hmax : k ≤ 2 ^ 40) : IsNear k (a + b) (x + y) := by
  rcases hx with ⟨c, hc, hca⟩
  rcases hy with ⟨d, hd, hdb⟩
  refine exists_rounded ?_ hab hk hmax (hc.add hd)
  rw [Nat.cast_add, add_div]
  calc |c + d - (a + b)| = |(c - a) + (d - b)| := by ring_nf
    _ ≤ |c - a| + |d - b| := abs_add_le _ _
    _ ≤ m / 2 ^ 40 + n / 2 ^ 40 := add_le_add hca hdb

theorem sub (hx : IsNear m a x) (hy : IsNear n b y) (hab : |a - b| ≤ 63) (hk : m + n < k)
    (hmax : k ≤ 2 ^ 40) : IsNear k (a - b) (x - y) := by
  rcases hx with ⟨c, hc, hca⟩
  rcases hy with ⟨d, hd, hdb⟩
  refine exists_rounded ?_ hab hk hmax (hc.sub hd)
  rw [Nat.cast_add, add_div]
  calc |c - d - (a - b)| = |(c - a) - (d - b)| := by ring_nf
    _ ≤ |c - a| + |d - b| := abs_sub _ _
    _ ≤ m / 2 ^ 40 + n / 2 ^ 40 := add_le_add hca hdb

theorem mul (hx : IsNear m a x) (hy : IsNear n b y) (ha : |a| ≤ 7) (hb : |b| ≤ 8)
    (hk : 8 * (m + n) < k) (hmax : k ≤ 2 ^ 40) : IsNear k (a * b) (x * y) := by
  rcases hx with ⟨c, hc, hca⟩
  rcases hy with ⟨d, hd, hdb⟩
  have hc8 : |c| ≤ 8 := by linarith [abs_le_of_dist hca (show m ≤ 2 ^ 40 by omega)]
  have hab : |a * b| ≤ 63 := by
    rw [abs_mul]
    nlinarith [abs_nonneg a, abs_nonneg b]
  refine exists_rounded ?_ hab hk hmax (hc.mul hd)
  calc |c * d - a * b| = |c * (d - b) + b * (c - a)| := by ring_nf
    _ ≤ |c| * |d - b| + |b| * |c - a| := by
        rw [← abs_mul, ← abs_mul]
        exact abs_add_le _ _
    _ ≤ 8 * (n / 2 ^ 40) + 8 * (m / 2 ^ 40) :=
        add_le_add (mul_le_mul hc8 hdb (abs_nonneg _) (by norm_num))
          (mul_le_mul hb hca (abs_nonneg _) (by norm_num))
    _ = (8 * (m + n) : ℕ) / 2 ^ 40 := by
        push_cast
        ring

end IsNear

def IsNearFraction (n : ℕ) (x : Float) : Prop :=
  ∃ a, IsNear n a x ∧ 0 ≤ a ∧ a ≤ 1

theorem IsFraction.isNearFraction {x : Float} (h : IsFraction x) : IsNearFraction 0 x := by
  rcases h with ⟨a, ha, hnonneg, hle⟩
  exact ⟨a, ha.isNear, hnonneg, hle⟩

theorem IsNearFraction.mono {x : Float} {m n : ℕ} (h : IsNearFraction m x) (hle : m ≤ n) :
    IsNearFraction n x := by
  rcases h with ⟨a, ha, hmem⟩
  exact ⟨a, ha.mono hle, hmem⟩

end Binary

open Binary

/-!
## The interpolation

Each of the four pieces is bounded by itself: a channel is on the low level, rises, is on the
high level, or falls. What is computed is a few steps away from a mixture of both levels.
-/

theorem isFraction_turn {t : Float} {a : ℚ} (ht : Denotes t a) (hlow : -1 ≤ a) (hhigh : a ≤ 2) :
    IsFraction (let t := if t < 0 then t + 1 else t; if t > 1 then t - 1 else t) := by
  have hzero : IsOnGrid 0 := isOnGrid_intCast (n := 0) (by decide)
  have hone : IsOnGrid 1 := isOnGrid_intCast (n := 1) (by decide)
  simp only
  by_cases hneg : t < 0
  · rw [if_pos hneg]
    rw [ht.lt_iff denotes_zero] at hneg
    rcases ht.add denotes_one (lt_limit_of_le_two (by rw [abs_le]; constructor <;> linarith)) with
      ⟨r, hr, hdenotes⟩
    have hr0 : 0 ≤ r := hr.ge_of_ge hzero (by linarith)
    have hr1 : r ≤ 1 := hr.le_of_le hone (by linarith)
    rw [if_neg (by rw [gt_iff_lt, denotes_one.lt_iff hdenotes]; exact hr1.not_gt)]
    exact ⟨r, hdenotes, hr0, hr1⟩
  · rw [if_neg hneg]
    rw [ht.lt_iff denotes_zero, not_lt] at hneg
    by_cases hover : t > 1
    · rw [if_pos hover]
      rw [gt_iff_lt, denotes_one.lt_iff ht] at hover
      rcases ht.sub denotes_one (lt_limit_of_le_two (by rw [abs_le]; constructor <;> linarith)) with
        ⟨r, hr, hdenotes⟩
      exact ⟨r, hdenotes, hr.ge_of_ge hzero (by linarith), hr.le_of_le hone (by linarith)⟩
    · rw [if_neg hover]
      rw [gt_iff_lt, denotes_one.lt_iff ht, not_lt] at hover
      exact ⟨a, ht, hneg, hover⟩

theorem mix_mem {a b w : ℚ} (ha : 0 ≤ a ∧ a ≤ 1) (hb : 0 ≤ b ∧ b ≤ 1) (hw : 0 ≤ w ∧ w ≤ 1) :
    0 ≤ a + (b - a) * w ∧ a + (b - a) * w ≤ 1 := by
  have hsplit : a + (b - a) * w = a * (1 - w) + b * w := by ring
  rw [hsplit]
  constructor
  · exact add_nonneg (mul_nonneg ha.1 (by linarith)) (mul_nonneg hb.1 hw.1)
  · nlinarith

theorem isNear_six : IsNear 0 6 (6 : Float) :=
  (denotes_ofNat (n := 6) (by decide)).isNear

theorem denotes_sixth : Denotes (1 / 6 : Float) (6004799503160661 * 2 ^ (-55 : ℤ)) :=
  denotes_of_parts 6004799503160661 (-55) (by decide +kernel) (by norm_num)

theorem denotes_twoThirds : Denotes (2 / 3 : Float) (6004799503160661 * 2 ^ (-53 : ℤ)) :=
  denotes_of_parts 6004799503160661 (-53) (by decide +kernel) (by norm_num)

section Interpolation

variable {p q t u : Float} {low high w : ℚ}

theorem abs_sub_le_one (hlow : 0 ≤ low ∧ low ≤ 1) (hhigh : 0 ≤ high ∧ high ≤ 1) :
    |high - low| ≤ 1 := by
  rw [abs_le]
  constructor <;> linarith

theorem isNear_slope (hp : IsNear 11 low p) (hq : IsNear 9 high q)
    (hlow : 0 ≤ low ∧ low ≤ 1) (hhigh : 0 ≤ high ∧ high ≤ 1) :
    IsNear 21 (high - low) (q - p) :=
  hq.sub hp (by linarith [abs_sub_le_one hlow hhigh]) (by decide) (by decide)

/-- What is added to the low level leads to a mixture of both levels. -/
theorem isNearFraction_add_part {part : Float} (hp : IsNear 11 low p)
    (hlow : 0 ≤ low ∧ low ≤ 1) (hhigh : 0 ≤ high ∧ high ≤ 1) (hw : 0 ≤ w ∧ w ≤ 1)
    (hpart : IsNear 1417 ((high - low) * w) part) : IsNearFraction 1500 (p + part) := by
  have hmix := mix_mem hlow hhigh hw
  exact ⟨_, hp.add hpart (abs_le.mpr (by constructor <;> linarith)) (by decide) (by decide), hmix⟩

theorem isNearFraction_rising (hp : IsNear 11 low p) (hq : IsNear 9 high q)
    (hlow : 0 ≤ low ∧ low ≤ 1) (hhigh : 0 ≤ high ∧ high ≤ 1) (hu : Denotes u w) (hw0 : 0 ≤ w)
    (hrising : u < 1 / 6) : IsNearFraction 1500 (p + (q - p) * 6 * u) := by
  rw [hu.lt_iff denotes_sixth] at hrising
  have hw : 0 ≤ 6 * w ∧ 6 * w ≤ 1 := by
    norm_num at hrising
    constructor <;> linarith
  have hspan := abs_sub_le_one hlow hhigh
  have hsteep : IsNear 169 ((high - low) * 6) ((q - p) * 6) :=
    (isNear_slope hp hq hlow hhigh).mul isNear_six (by linarith) (by norm_num) (by decide)
      (by decide)
  have hrise : IsNear 1353 ((high - low) * 6 * w) ((q - p) * 6 * u) := by
    apply hsteep.mul hu.isNear _ _ (by decide) (by decide)
    · rw [abs_mul, abs_of_pos (show (0 : ℚ) < 6 by norm_num)]
      linarith
    · rw [abs_of_nonneg hw0]
      linarith
  rw [mul_assoc] at hrise
  exact isNearFraction_add_part hp hlow hhigh hw (hrise.mono (by decide))

theorem isNearFraction_falling (hp : IsNear 11 low p) (hq : IsNear 9 high q)
    (hlow : 0 ≤ low ∧ low ≤ 1) (hhigh : 0 ≤ high ∧ high ≤ 1) (hu : Denotes u w)
    (hfalling : ¬u < 1 / 2) (hthird : u < 2 / 3) :
    IsNearFraction 1500 (p + (q - p) * (2 / 3 - u) * 6) := by
  have hhalf : Denotes (1 / 2 : Float) (1 / 2) :=
    denotes_of_parts (2 ^ 52) (-53) (by decide +kernel) (by norm_num)
  rw [hu.lt_iff hhalf, not_lt] at hfalling
  rw [hu.lt_iff denotes_twoThirds] at hthird
  have hthirds := denotes_twoThirds
  have hbound : (6004799503160661 * 2 ^ (-53 : ℤ) : ℚ) ≤ 2 / 3 := by norm_num
  generalize (6004799503160661 * 2 ^ (-53 : ℤ) : ℚ) = v at hthirds hthird hbound
  have hw : 0 ≤ (v - w) * 6 ∧ (v - w) * 6 ≤ 1 := by constructor <;> linarith
  have hspan := abs_sub_le_one hlow hhigh
  have hrest : |v - w| ≤ 1 := abs_le.mpr (by constructor <;> linarith)
  have hleft : IsNear 1 (v - w) (2 / 3 - u) :=
    hthirds.isNear.sub hu.isNear (by linarith) (by decide) (by decide)
  have hpart : IsNear 177 ((high - low) * (v - w)) ((q - p) * (2 / 3 - u)) :=
    (isNear_slope hp hq hlow hhigh).mul hleft (by linarith) (by linarith) (by decide) (by decide)
  have hfall : IsNear 1417 ((high - low) * (v - w) * 6) ((q - p) * (2 / 3 - u) * 6) := by
    apply hpart.mul isNear_six _ (by norm_num) (by decide) (by decide)
    rw [abs_mul]
    nlinarith [abs_nonneg (high - low), abs_nonneg (v - w)]
  rw [mul_assoc] at hfall
  exact isNearFraction_add_part hp hlow hhigh hw hfall

theorem isNearFraction_hueChannel {a : ℚ} (hp : IsNearFraction 11 p) (hq : IsNearFraction 9 q)
    (ht : Denotes t a) (hmin : -1 ≤ a) (hmax : a ≤ 2) :
    IsNearFraction 1500 (hueChannel p q t) := by
  have hturn := isFraction_turn ht hmin hmax
  have hp' := hp.mono (show 11 ≤ 1500 by decide)
  have hq' := hq.mono (show 9 ≤ 1500 by decide)
  rcases hp with ⟨low, hp, hlow⟩
  rcases hq with ⟨high, hq, hhigh⟩
  unfold hueChannel
  simp only at hturn ⊢
  generalize (if (if t < 0 then t + 1 else t) > 1 then (if t < 0 then t + 1 else t) - 1
    else (if t < 0 then t + 1 else t)) = u at hturn ⊢
  rcases hturn with ⟨w, hu, hw0, _⟩
  split
  · rename_i hrising
    exact isNearFraction_rising hp hq hlow hhigh hu hw0 hrising
  · split
    · exact hq'
    · split
      · rename_i hfalling hthird
        exact isNearFraction_falling hp hq hlow hhigh hu hfalling hthird
      · exact hp'

end Interpolation

theorem exists_levels {s l : Float} (hs : IsFraction s) (hl : IsFraction l) :
    IsNearFraction 9 (if l < 0.5 then l * (1 + s) else l + s - l * s) ∧
      IsNearFraction 11 (2 * l - if l < 0.5 then l * (1 + s) else l + s - l * s) := by
  have htwo : IsNear 0 2 (2 : Float) := (denotes_ofNat (n := 2) (by decide)).isNear
  have hone : IsNear 0 1 (1 : Float) := denotes_one.isNear
  rcases hs with ⟨σ, hs, hs0, hs1⟩
  rcases hl with ⟨lam, hl, hl0, hl1⟩
  have hdouble : IsNear 1 (2 * lam) (2 * l) := by
    apply htwo.mul hl.isNear (by norm_num) _ (by decide) (by decide)
    rw [abs_of_nonneg hl0]
    linarith
  -- what is left below the high level stays between 0 and the lightness
  have hlevels : ∀ {q : Float} {high : ℚ}, IsNear 9 high q → lam ≤ high → high ≤ 2 * lam →
      high ≤ 1 → IsNearFraction 9 q ∧ IsNearFraction 11 (2 * l - q) := by
    intro q high hq hge hle hone
    refine ⟨⟨high, hq, hl0.trans hge, hone⟩, ⟨2 * lam - high, ?_, by linarith, by linarith⟩⟩
    exact hdouble.sub hq (abs_le.mpr (by constructor <;> linarith)) (by decide) (by decide)
  have hproduct : 0 ≤ lam * σ := mul_nonneg hl0 hs0
  split
  · rename_i hdark
    rw [hl.lt_iff denotes_half] at hdark
    have hfactor : IsNear 1 (1 + σ) (1 + s) :=
      hone.add hs.isNear (abs_le.mpr (by constructor <;> linarith)) (by decide) (by decide)
    have hle : lam * σ ≤ lam := mul_le_of_le_one_right hl0 hs1
    have hhigh : IsNear 9 (lam * (1 + σ)) (l * (1 + s)) := by
      apply hl.isNear.mul hfactor _ _ (by decide) (by decide)
      · rw [abs_of_nonneg hl0]
        linarith
      · exact abs_le.mpr (by constructor <;> linarith)
    exact hlevels hhigh (by linarith) (by linarith) (by linarith)
  · rename_i hbright
    rw [hl.lt_iff denotes_half, not_lt] at hbright
    have hsum : IsNear 1 (lam + σ) (l + s) :=
      hl.isNear.add hs.isNear (abs_le.mpr (by constructor <;> linarith)) (by decide) (by decide)
    have hboth : IsNear 1 (lam * σ) (l * s) := by
      apply hl.isNear.mul hs.isNear _ _ (by decide) (by decide)
      · rw [abs_of_nonneg hl0]
        linarith
      · rw [abs_of_nonneg hs0]
        linarith
    have hle : lam * σ ≤ σ := mul_le_of_le_one_left hs0 hl1
    have hdark : (1 - lam) * (1 - σ) ≤ 1 - lam := mul_le_of_le_one_right (by linarith) (by linarith)
    have hnonneg : 0 ≤ (1 - lam) * (1 - σ) := mul_nonneg (by linarith) (by linarith)
    have hhigh : IsNear 9 (lam + σ - lam * σ) (l + s - l * s) :=
      hsum.sub hboth (abs_le.mpr (by constructor <;> linarith)) (by decide) (by decide)
    exact hlevels hhigh (by linarith) (by linarith) (by linarith)

structure AreNearFractions (channels : Float × Float × Float) : Prop where
  r : IsNearFraction 1500 channels.1
  g : IsNearFraction 1500 channels.2.1
  b : IsNearFraction 1500 channels.2.2

theorem areNearFractions_hslChannels {hue s l : Float} (hhue : IsFraction hue)
    (hs : IsFraction s) (hl : IsFraction l) : AreNearFractions (hslChannels hue s l) := by
  rcases exists_levels hs hl with ⟨hq, hp⟩
  unfold hslChannels
  split
  · have hgray := hl.isNearFraction.mono (show 0 ≤ 1500 by decide)
    exact ⟨hgray, hgray, hgray⟩
  · simp only
    generalize (if l < 0.5 then l * (1 + s) else l + s - l * s) = q at hp hq ⊢
    have hthird : Denotes (1 / 3 : Float) (6004799503160661 * 2 ^ (-54 : ℤ)) :=
      denotes_of_parts 6004799503160661 (-54) (by decide +kernel) (by norm_num)
    have hbounds : (0 : ℚ) ≤ 6004799503160661 * 2 ^ (-54 : ℤ) ∧
        (6004799503160661 * 2 ^ (-54 : ℤ) : ℚ) ≤ 1 := by norm_num
    generalize (6004799503160661 * 2 ^ (-54 : ℤ) : ℚ) = third at hthird hbounds
    rcases hhue with ⟨a, ha, ha0, ha1⟩
    have htwo : IsOnGrid 2 := isOnGrid_intCast (n := 2) (by decide)
    have hminus : IsOnGrid (-1) := by exact_mod_cast isOnGrid_intCast (n := -1) (by decide)
    obtain ⟨before, hbefore, hbefore'⟩ := ha.add hthird (lt_limit_of_le_two
      (abs_le.mpr (by constructor <;> linarith)))
    obtain ⟨after, hafter, hafter'⟩ := ha.sub hthird (lt_limit_of_le_two
      (abs_le.mpr (by constructor <;> linarith)))
    exact ⟨isNearFraction_hueChannel hp hq hbefore' (hbefore.ge_of_ge hminus (by linarith))
        (hbefore.le_of_le htwo (by linarith)),
      isNearFraction_hueChannel hp hq ha (by linarith) (by linarith),
      isNearFraction_hueChannel hp hq hafter' (hafter.ge_of_ge hminus (by linarith))
        (hafter.le_of_le htwo (by linarith))⟩

theorem exists_roundHalfUp_byte {x : Float} (hx : IsNearFraction 1500 x) :
    ∃ n, roundHalfUp? (x * 255) = .ok n ∧ 0 ≤ n ∧ n ≤ 255 := by
  rcases hx with ⟨a, ⟨b, hb, hdist⟩, ha0, ha1⟩
  have hdist' : -1 / 2 ^ 20 ≤ b - a ∧ b - a ≤ 1 / 2 ^ 20 := by
    rw [abs_le] at hdist
    constructor <;> linarith [hdist.1, hdist.2]
  have hproduct : |b * 255| ≤ 2 ^ 8 := abs_le.mpr (by constructor <;> linarith)
  rcases hb.mul Color.denotes_byte (hproduct.trans_lt (two_pow_lt_limit (by decide))) with
    ⟨r, hr, hdenotes⟩
  have hlow : IsOnGrid (-1 / 4) := ⟨-1, -2, by decide, by decide, by norm_num⟩
  have hhigh : IsOnGrid (1021 / 4) := ⟨1021, -2, by decide, by decide, by norm_num⟩
  have htop : IsOnGrid (1023 / 4) := ⟨1023, -2, by decide, by decide, by norm_num⟩
  have hr0 := hr.ge_of_ge hlow (by linarith)
  have hr1 := hr.le_of_le hhigh (by linarith)
  rcases roundHalfUp?_of_denotes hdenotes with ⟨z, hz, hround⟩
  have hz0 : 0 ≤ z := hz.ge_of_ge (isOnGrid_intCast (n := 0) (by decide)) (by linarith)
  have hz1 : z ≤ 1023 / 4 := hz.le_of_le htop (by linarith)
  refine ⟨⌊z⌋, hround, Int.floor_nonneg.mpr hz0, ?_⟩
  have hlt : ⌊z⌋ < 256 := by
    rw [Int.floor_lt]
    push_cast
    linarith
  omega

theorem isInCube_of_ofFractions? {channels : Float × Float × Float} {a : Option Float} {c : Rgb}
    (h : AreNearFractions channels) (hc : Rgb.ofFractions? channels a = .ok c) : c.IsInCube := by
  rcases exists_roundHalfUp_byte h.r with ⟨r, hr, hr'⟩
  rcases exists_roundHalfUp_byte h.g with ⟨g, hg, hg'⟩
  rcases exists_roundHalfUp_byte h.b with ⟨b, hb, hb'⟩
  unfold Rgb.ofFractions? at hc
  rw [hr, hg, hb] at hc
  cases hc
  exact ⟨hr', hg', hb'⟩

/-!
## The texts
-/

namespace Color

theorem isFinite_of_componentNumber? {t component : Text} {x : Float}
    (h : componentNumber? t component = .ok x) : IsFinite x := by
  have hsettles := settles_componentNumber t component
  rw [h] at hsettles
  cases hsettles with
  | ok _ hx => exact hx

theorem isFraction_div {x y : Float} {a b : ℚ} (hx : Denotes x a) (hy : Denotes y b)
    (hnonneg : 0 ≤ a) (hle : a ≤ b) (hpos : 0 < b) : IsFraction (x / y) := by
  have hzero : 0 ≤ a / b := div_nonneg hnonneg hpos.le
  have hone : a / b ≤ 1 := (div_le_one hpos).mpr hle
  rcases hx.div hy hpos.ne' (lt_limit_of_le_two (abs_le.mpr (by constructor <;> linarith))) with
    ⟨r, hr, hdenotes⟩
  exact ⟨r, hdenotes, hr.ge_of_ge (isOnGrid_intCast (n := 0) (by decide)) (by simpa using hzero),
    hr.le_of_le (isOnGrid_intCast (n := 1) (by decide)) (by simpa using hone)⟩

theorem isFraction_percent {t component : Text} {x : Float}
    (h : (componentNumber? t component).map (clamp 0 100) = .ok x) : IsFraction (x / 100) := by
  cases hread : componentNumber? t component with
  | error fault =>
      rw [hread] at h
      cases h
  | ok y =>
      rw [hread] at h
      cases h
      rcases isFinite_of_componentNumber? hread with ⟨a, ha⟩
      rcases denotes_clamp ha denotes_zero denotes_hundred (by norm_num) with ⟨b, hb, hb0, hb1⟩
      exact isFraction_div hb denotes_hundred hb0 hb1 (by norm_num)

theorem isFraction_wrap {x hue : Float} (hx : IsFinite x) (h : wrap? x 360 = .ok hue) :
    IsFraction (hue / 360) := by
  have hturn : Denotes (360 : Float) 360 := denotes_ofNat (n := 360) (by decide)
  rcases hx with ⟨a, ha⟩
  rcases remainder?_le_of_denotes ha (show 0 < 360 by decide) (by decide) with
    ⟨r, rest, hrun, hrest, hbound⟩
  rw [abs_le, Nat.cast_ofNat] at hbound
  unfold wrap? at h
  rw [hrun, Except.ok_bind] at h
  split at h
  · cases h
    exact isFraction_div denotes_zero hturn le_rfl (by norm_num) (by norm_num)
  · split at h
    · rename_i hneg
      cases h
      rw [hrest.lt_iff denotes_zero] at hneg
      have hsum : |rest + 360| ≤ 2 ^ 9 := abs_le.mpr (by constructor <;> linarith)
      rcases hrest.add hturn (hsum.trans_lt (two_pow_lt_limit (by decide))) with
        ⟨v, hv, hdenotes⟩
      refine isFraction_div hdenotes hturn ?_ ?_ (by norm_num)
      · exact hv.ge_of_ge (isOnGrid_intCast (n := 0) (by decide)) (by linarith)
      · exact_mod_cast hv.le_of_le (isOnGrid_intCast (n := 360) (by decide)) (by push_cast; linarith)
    · rename_i hnonneg
      cases h
      rw [hrest.lt_iff denotes_zero, not_lt] at hnonneg
      exact isFraction_div hrest hturn hnonneg hbound.2 (by norm_num)

theorem isInCube_of_parseHsl {t : Text} {c : Color} (h : parseHsl t = .ok c) :
    c.rgb.IsInCube := by
  rcases exists_of_parseHsl h with
    ⟨x, s, l, _, hue, ⟨_, hx⟩, ⟨_, hs⟩, ⟨_, hl⟩, hhue, hrgb, _⟩
  refine isInCube_of_ofFractions? (areNearFractions_hslChannels ?_ ?_ ?_) hrgb
  · exact isFraction_wrap (isFinite_of_componentNumber? hx) hhue
  · exact isFraction_percent hs
  · exact isFraction_percent hl

/-- Every color that is read lies in the cube of channels. -/
theorem isInCube_of_parse {t : Text} {c : Color} (h : parse t = .ok c) : c.rgb.IsInCube := by
  cases hfamily : ColorFormat.ofText? t with
  | none =>
      unfold parse at h
      rw [hfamily] at h
      cases h
      exact ⟨by decide, by decide, by decide⟩
  | some family =>
      by_cases hhue : family = .hsl
      · unfold parse at h
        rw [hfamily, hhue] at h
        exact isInCube_of_parseHsl h
      · apply (isFormed_of_parse h).cube
        rwa [format_of_parse hfamily h, ne_eq, Option.some.injEq]

end Color
end DesignTokens
