import DesignTokens.Color.Convert
import DesignTokens.Color.Hex
import DesignTokens.Proofs.Number.Bounded

/-!
# Channels that can be computed

The conversions between forms of colors divide floats and round them to integers.
For colors in range they never divide by zero and never leave the floats that have
an integer below them.
-/

namespace DesignTokens

open Binary

/-!
## Colors of moderate size
-/

structure ChannelsWithin (n : Nat) (channels : Float × Float × Float) : Prop where
  r : Within n channels.1
  g : Within n channels.2.1
  b : Within n channels.2.2

/-- Whether the channels of a color are far from the largest float and its opacity is finite. -/
structure Rgb.IsModerate (c : Rgb) : Prop where
  r : |c.r| ≤ 2 ^ 100
  g : |c.g| ≤ 2 ^ 100
  b : |c.b| ≤ 2 ^ 100
  opacity : ∀ a, c.a = some a → IsFraction a

/-- Whether the channels of a color are from 0 to 255 and its opacity is a fraction. -/
structure Rgb.IsInRange (c : Rgb) : Prop where
  r : 0 ≤ c.r ∧ c.r ≤ 255
  g : 0 ≤ c.g ∧ c.g ≤ 255
  b : 0 ≤ c.b ∧ c.b ≤ 255
  opacity : ∀ a, c.a = some a → IsFraction a

theorem Rgb.IsInRange.isModerate {c : Rgb} (h : c.IsInRange) : c.IsModerate := by
  have hbound : ∀ {n : Int}, 0 ≤ n ∧ n ≤ 255 → |n| ≤ 2 ^ 100 := by
    intro n hn
    rw [abs_of_nonneg hn.1]
    omega
  exact ⟨hbound h.r, hbound h.g, hbound h.b, h.opacity⟩

/-!
## Hexadecimal form
-/

theorem channelByte?_of_le {n : Int} (h : |n| ≤ 2 ^ 100) : ∃ m, channelByte? n = .ok m := by
  have hlarge : 2 ^ 100 < twoPow 1024 - twoPow 970 := by decide +kernel
  have hn : ¬ twoPow 1024 - twoPow 970 ≤ n.natAbs := by
    generalize twoPow 1024 - twoPow 970 = bound at hlarge ⊢
    rw [Int.abs_eq_natAbs] at h
    omega
  exact ⟨_, if_neg hn⟩

theorem alphaByte?_of_isFraction {a : Float} (h : IsFraction a) : ∃ m, alphaByte? a = .ok m := by
  have hscale : Within 8 (255 : Float) := within_ofNat (n := 255) (by decide) (by decide)
  rcases roundHalfUp?_of_within (h.within.mul hscale (by decide)) with ⟨k, hk, _⟩
  unfold alphaByte?
  rw [hk]
  exact ⟨_, rfl⟩

theorem Rgb.IsModerate.exists_hex {c : Rgb} (h : c.IsModerate) : ∃ t, c.hex? = .ok t := by
  rcases channelByte?_of_le h.r with ⟨r, hr⟩
  rcases channelByte?_of_le h.g with ⟨g, hg⟩
  rcases channelByte?_of_le h.b with ⟨b, hb⟩
  unfold Rgb.hex?
  rw [hr, hg, hb]
  cases ha : c.a with
  | none => exact ⟨_, rfl⟩
  | some a =>
      rcases alphaByte?_of_isFraction (h.opacity a ha) with ⟨m, hm⟩
      simp only [hm, bind, Except.bind]
      split <;> exact ⟨_, rfl⟩

/-!
## From hue, saturation and lightness
-/

theorem within_one : Within 0 (1 : Float) :=
  within_ofNat (n := 1) (by decide) (by decide)

theorem within_two : Within 1 (2 : Float) :=
  within_ofNat (n := 2) (by decide) (by decide)

theorem within_six : Within 3 (6 : Float) :=
  within_ofNat (n := 6) (by decide) (by decide)

theorem within_turn {t : Float} (ht : Within 11 t) :
    Within 13 (let t := if t < 0 then t + 1 else t; if t > 1 then t - 1 else t) := by
  have hone : Within 11 (1 : Float) := within_one.mono (by decide)
  have hlifted : Within 12 (if t < 0 then t + 1 else t) := by
    split
    · exact ht.add hone (by decide)
    · exact ht.mono (by decide)
  simp only
  generalize (if t < 0 then t + 1 else t) = u at hlifted ⊢
  split
  · exact hlifted.sub (hone.mono (by decide)) (by decide)
  · exact hlifted.mono (by decide)

theorem within_hueChannel {p q t : Float} (hp : Within 22 p) (hq : Within 22 q)
    (ht : Within 11 t) : Within 41 (hueChannel p q t) := by
  have hturn := within_turn ht
  have hslope : Within 23 (q - p) := hq.sub hp (by decide)
  have hthree : Denotes (3 : Float) 3 := denotes_ofNat (n := 3) (by decide)
  have hthirds : Within 13 (2 / 3 : Float) :=
    (within_two.div hthree (by norm_num) (by decide)).mono (by decide)
  unfold hueChannel
  simp only at hturn ⊢
  generalize (if (if t < 0 then t + 1 else t) > 1 then (if t < 0 then t + 1 else t) - 1
    else (if t < 0 then t + 1 else t)) = u at hturn ⊢
  have hrising : Within 39 ((q - p) * 6 * u) :=
    (hslope.mul within_six (by decide)).mul hturn (by decide)
  have hfalling : Within 40 ((q - p) * (2 / 3 - u) * 6) :=
    (hslope.mul (hthirds.sub hturn (by decide)) (by decide)).mul within_six (by decide)
  split
  · exact ((hp.mono (by decide)).add hrising (by decide)).mono (by decide)
  · split
    · exact hq.mono (by decide)
    · split
      · exact (hp.mono (by decide)).add hfalling (by decide)
      · exact hp.mono (by decide)

theorem channelsWithin_hslChannels {hue s l : Float} (hhue : Within 10 hue) (hs : Within 10 s)
    (hl : Within 10 l) : ChannelsWithin 41 (hslChannels hue s l) := by
  have hlevel : Within 21 (if l < 0.5 then l * (1 + s) else l + s - l * s) := by
    have hone : Within 10 (1 : Float) := within_one.mono (by decide)
    split
    · exact hl.mul (hone.add hs (by decide)) (by decide)
    · exact ((hl.add hs (by decide)).mono (by decide)).sub (hl.mul hs (by decide)) (by decide)
  have hthree : Denotes (3 : Float) 3 := denotes_ofNat (n := 3) (by decide)
  have hthird : Within 10 (1 / 3 : Float) :=
    (within_one.div hthree (by norm_num) (by decide)).mono (by decide)
  unfold hslChannels
  split
  · exact ⟨hl.mono (by decide), hl.mono (by decide), hl.mono (by decide)⟩
  · simp only
    generalize (if l < 0.5 then l * (1 + s) else l + s - l * s) = q at hlevel ⊢
    have hq : Within 22 q := hlevel.mono (by decide)
    have hp : Within 22 (2 * l - q) :=
      ((within_two.mul hl (by decide)).mono (by decide)).sub hlevel (by decide)
    exact ⟨within_hueChannel hp hq (hhue.add hthird (by decide)),
      within_hueChannel hp hq (hhue.mono (by decide)),
      within_hueChannel hp hq (hhue.sub hthird (by decide))⟩

theorem exists_ofFractions {channels : Float × Float × Float} {a : Option Float}
    (h : ChannelsWithin 41 channels) (ha : ∀ x, a = some x → IsFraction x) :
    ∃ c, Rgb.ofFractions? channels a = .ok c ∧ c.IsModerate ∧ c.a = a := by
  have hscale : Within 8 (255 : Float) := within_ofNat (n := 255) (by decide) (by decide)
  have hround : ∀ {x : Float}, Within 41 x →
      ∃ k, roundHalfUp? (x * 255) = .ok k ∧ |k| ≤ 2 ^ 100 := by
    intro x hx
    rcases roundHalfUp?_of_within (hx.mul hscale (by decide)) with ⟨k, hk, hbound⟩
    exact ⟨k, hk, hbound.trans (by decide)⟩
  rcases hround h.r with ⟨r, hr, hr'⟩
  rcases hround h.g with ⟨g, hg, hg'⟩
  rcases hround h.b with ⟨b, hb, hb'⟩
  refine ⟨⟨r, g, b, a⟩, ?_, ⟨hr', hg', hb', ha⟩, rfl⟩
  unfold Rgb.ofFractions?
  rw [hr, hg, hb]
  rfl

/-!
## From lightness, chroma and hue
-/

theorem channelsWithin_sectorChannels {n : Nat} {peak low mid high gray : Float}
    (hpeak : Within n peak) (hlow : Within n low) (hmid : Within n mid) (hhigh : Within n high)
    (hgray : Within n gray) (sector : Int) :
    ChannelsWithin n (sectorChannels sector peak low mid high gray) := by
  unfold sectorChannels
  split
  · exact ⟨hpeak, hmid, hlow⟩
  · split
    · exact ⟨hhigh, hpeak, hlow⟩
    · split
      · exact ⟨hlow, hpeak, hmid⟩
      · split
        · exact ⟨hlow, hhigh, hpeak⟩
        · split
          · exact ⟨hmid, hlow, hpeak⟩
          · split
            · exact ⟨hpeak, hlow, hhigh⟩
            · exact ⟨hgray, hgray, hgray⟩

theorem clampInt_mem (n : Int) : 0 ≤ clampInt 0 255 n ∧ clampInt 0 255 n ≤ 255 := by
  unfold clampInt
  omega

theorem denotes_zero : Denotes (0 : Float) 0 := by
  have hzero := denotes_ofNat (n := 0) (by decide)
  rwa [Nat.cast_zero] at hzero

theorem denotes_one : Denotes (1 : Float) 1 := by
  have hone := denotes_ofNat (n := 1) (by decide)
  rwa [Nat.cast_one] at hone

theorem isFraction_clamp {x hi : Float} {a h : ℚ} (hx : Denotes x a) (hhi : Denotes hi h)
    (hnonneg : 0 ≤ h) (hle : h ≤ 1) : IsFraction (clamp 0 hi x) := by
  rcases denotes_clamp hx denotes_zero hhi hnonneg with ⟨b, hb, hb0, hbh⟩
  exact ⟨b, hb, hb0, hbh.trans hle⟩

/-- Finite lightness, chroma and hue, however large, give a color in range. -/
theorem Oklch.exists_toRgb {c : Oklch} {l ch h : ℚ} (hl : Denotes c.l l) (hc : Denotes c.c ch)
    (hh : Denotes c.h h) (ha : ∀ x, c.a = some x → IsFraction x) :
    ∃ rgb, c.toRgb? = .ok rgb ∧ rgb.IsInRange := by
  have hlightness : Within 0 (clamp 0 1 c.l) :=
    (isFraction_clamp hl denotes_one (by norm_num) le_rfl).within
  have hchroma : Within 0 (clamp 0 0.4 c.c) := by
    have hbound : Denotes (0.4 : Float) (7205759403792794 * 2 ^ (-54 : ℤ)) :=
      denotes_of_parts 7205759403792794 (-54) (by decide +kernel) (by norm_num)
    exact (isFraction_clamp hc hbound (by norm_num) (by norm_num)).within
  obtain ⟨hue, hhue, hhue'⟩ :=
    remainder?_of_denotes (n := 9) hh (show 0 < 360 by decide) (by decide) (by decide)
  have hsixty : Denotes (60 : Float) 60 := denotes_ofNat (n := 60) (by decide)
  rcases hhue'.div hsixty (by norm_num) (by decide) with ⟨section60, hsection, -⟩
  have hsector := floor?_of_denotes hsection
  rcases hhue' with ⟨hueValue, hhueValue, -⟩
  obtain ⟨inSection, hinSection, hinSection'⟩ :=
    remainder?_of_denotes (n := 6) hhueValue (show 0 < 60 by decide) (by decide) (by decide)
  have hpart : Within 6 (inSection / 60) := hinSection'.div hsixty (by norm_num) (by decide)
  -- what the channels are computed from is finite, so that every sector gives finite channels
  unfold Oklch.toRgb?
  simp only [hhue, hsector, hinSection, bind, Except.bind]
  generalize clamp 0 1 c.l = lightness at hlightness ⊢
  generalize clamp 0 0.4 c.c = chroma at hchroma ⊢
  generalize inSection / 60 = part at hpart ⊢
  have hpeak : Within 41 (lightness * (1 + chroma * 2 - 1)) := by
    have hdouble : Within 1 (chroma * 2) := hchroma.mul within_two (by decide)
    have hsum : Within 3 (1 + chroma * 2 - 1) :=
      ((within_one.mono (by decide)).add hdouble (by decide)).sub (within_one.mono (by decide))
        (by decide)
    exact (hlightness.mul hsum (by decide)).mono (by decide)
  have hblend : ∀ {x : Float}, Within 7 x → Within 41 (lightness * (1 - chroma * x)) := by
    intro x hx
    have hdifference : Within 8 (1 - chroma * x) :=
      (within_one.mono (by decide)).sub ((hchroma.mul hx (by decide)).mono (by decide))
        (by decide)
    exact (hlightness.mul hdifference (by decide)).mono (by decide)
  have hlow : Within 41 (lightness * (1 - chroma)) :=
    (hlightness.mul (within_one.sub hchroma (by decide)) (by decide)).mono (by decide)
  have hmid := hblend ((within_one.mono (by decide)).sub hpart (by decide))
  have hhigh := hblend (hpart.mono (by decide))
  obtain ⟨rgb, hrgb, -, hopacity⟩ := exists_ofFractions
    (channelsWithin_sectorChannels hpeak hlow hmid hhigh (hlightness.mono (by decide))
      (Int.tmod ⌊section60⌋ 6)) ha
  rw [hrgb]
  refine ⟨_, rfl, clampInt_mem _, clampInt_mem _, clampInt_mem _, ?_⟩
  intro x hx
  exact ha x (hopacity ▸ hx)

/-!
## To hue, saturation and lightness
-/

theorem denotes_larger {x y : Float} {a b : ℚ} (hx : Denotes x a) (hy : Denotes y b) :
    Denotes (larger x y) (max a b) := by
  unfold larger
  split
  · rename_i hlt
    rwa [max_eq_right ((hx.lt_iff hy).mp hlt).le]
  · rename_i hge
    rwa [max_eq_left (not_lt.mp (mt (hx.lt_iff hy).mpr hge))]

theorem denotes_smaller {x y : Float} {a b : ℚ} (hx : Denotes x a) (hy : Denotes y b) :
    Denotes (smaller x y) (min a b) := by
  unfold smaller
  split
  · rename_i hlt
    rwa [min_eq_right ((hy.lt_iff hx).mp hlt).le]
  · rename_i hge
    rwa [min_eq_left (not_lt.mp (mt (hy.lt_iff hx).mpr hge))]

theorem divide?_of_dominated {x y : Float} {a b p q : ℚ} (hx : Denotes x a) (hy : Denotes y b)
    (ha : IsNearest a p) (hb : IsNearest b q) (hpos : 0 < b) (hle : |p| ≤ q) :
    ∃ z, divide? x y = .ok z ∧ Within 1 z := by
  have hzero : ¬ (y == 0) = true := by
    rw [hy.beq_iff denotes_zero]
    exact hpos.ne'
  exact ⟨x / y, if_neg hzero, hx.within_div hy ha hb hpos hle⟩

theorem lt_limit_of_le_two {q : ℚ} (h : |q| ≤ 2) : |q| < limit :=
  h.trans_lt (pow_one (2 : ℚ) ▸ two_pow_lt_limit (by decide))

structure IsSpread (r g b high low : Float) (red green blue top bottom : ℚ) : Prop where
  r : Denotes r red
  g : Denotes g green
  b : Denotes b blue
  high : Denotes high top
  low : Denotes low bottom
  nonneg : 0 ≤ bottom
  le_one : top ≤ 1
  red_mem : bottom ≤ red ∧ red ≤ top
  green_mem : bottom ≤ green ∧ green ≤ top
  blue_mem : bottom ≤ blue ∧ blue ≤ top

namespace IsSpread

variable {r g b high low delta : Float} {red green blue top bottom d : ℚ}

theorem of_denotes (hr : Denotes r red) (hg : Denotes g green) (hb : Denotes b blue)
    (hred : 0 ≤ red ∧ red ≤ 1) (hgreen : 0 ≤ green ∧ green ≤ 1) (hblue : 0 ≤ blue ∧ blue ≤ 1) :
    IsSpread r g b (larger (larger r g) b) (smaller (smaller r g) b) red green blue
      (max (max red green) blue) (min (min red green) blue) where
  r := hr
  g := hg
  b := hb
  high := denotes_larger (denotes_larger hr hg) hb
  low := denotes_smaller (denotes_smaller hr hg) hb
  nonneg := le_min (le_min hred.1 hgreen.1) hblue.1
  le_one := max_le (max_le hred.2 hgreen.2) hblue.2
  red_mem := ⟨min_le_of_left_le (min_le_left _ _), le_max_of_le_left (le_max_left _ _)⟩
  green_mem := ⟨min_le_of_left_le (min_le_right _ _), le_max_of_le_left (le_max_right _ _)⟩
  blue_mem := ⟨min_le_right _ _, le_max_right _ _⟩

theorem exists_divide (h : IsSpread r g b high low red green blue top bottom) {x y : Float}
    {p q : ℚ} (hx : Denotes x p) (hy : Denotes y q) (hp : bottom ≤ p ∧ p ≤ top)
    (hq : bottom ≤ q ∧ q ≤ top) (hdelta : Denotes delta d) (hd : IsNearest d (top - bottom))
    (hpos : 0 < d) : ∃ z, divide? (x - y) delta = .ok z ∧ Within 1 z := by
  have hle : |p - q| ≤ top - bottom := by
    rw [abs_le]
    constructor <;> linarith [hp.1, hp.2, hq.1, hq.2]
  have hnonneg := h.nonneg
  have hone := h.le_one
  rcases hx.sub hy (lt_limit_of_le_two (by linarith)) with ⟨e, he, hdenotes⟩
  exact divide?_of_dominated hdenotes hdelta he hd hpos hle

theorem exists_hueSextant (h : IsSpread r g b high low red green blue top bottom)
    (hdelta : Denotes delta d) (hd : IsNearest d (top - bottom)) (hpos : 0 < d) :
    ∃ z, hueSextant? r g b high delta = .ok z ∧ Within 4 z := by
  have hshift : ∀ {z x : Float}, Within 1 z → Within 3 x → Within 4 (z + x) := by
    intro z x hz hx
    exact (hz.mono (by decide)).add hx (by decide)
  unfold hueSextant?
  split
  · rcases h.exists_divide h.g h.b h.green_mem h.blue_mem hdelta hd hpos with ⟨z, hz, hz'⟩
    rw [hz]
    refine ⟨_, rfl, hshift hz' ?_⟩
    split
    · exact within_six
    · exact within_ofNat (n := 0) (by decide) (by decide)
  · split
    · rcases h.exists_divide h.b h.r h.blue_mem h.red_mem hdelta hd hpos with ⟨z, hz, hz'⟩
      rw [hz]
      exact ⟨_, rfl, hshift hz' (within_ofNat (n := 2) (by decide) (by decide))⟩
    · rcases h.exists_divide h.r h.g h.red_mem h.green_mem hdelta hd hpos with ⟨z, hz, hz'⟩
      rw [hz]
      exact ⟨_, rfl, hshift hz' (within_ofNat (n := 4) (by decide) (by decide))⟩

/-- The divisor of the saturation is not zero unless the extreme channels are equal. -/
theorem exists_saturation (h : IsSpread r g b high low red green blue top bottom)
    (hdelta : Denotes delta d) (hd : IsNearest d (top - bottom)) (hlt : bottom < top)
    (light : Prop) [Decidable light] :
    ∃ s, (if light then divide? delta (2 - high - low) else divide? delta (high + low)) = .ok s ∧
      Within 1 s := by
  have hnonneg := h.nonneg
  have hone := h.le_one
  have hle : |top - bottom| = top - bottom := abs_of_pos (by linarith)
  split
  · have htwo : Denotes (2 : Float) 2 := denotes_ofNat (n := 2) (by decide)
    obtain ⟨c, hc, hcomplement⟩ := htwo.sub h.high (lt_limit_of_le_two (by
      rw [abs_of_nonneg (by linarith)]
      linarith))
    have hc1 : 1 ≤ c := hc.ge_of_ge denotes_one.isOnGrid (by linarith)
    have hc2 : c ≤ 2 := hc.le_of_le htwo.isOnGrid (by linarith)
    obtain ⟨e, he, hdivisor⟩ := hcomplement.sub h.low (lt_limit_of_le_two (by
      rw [abs_of_nonneg (by linarith)]
      linarith))
    have hepos := he.pos_of_lt hc.onGrid h.low.isOnGrid (by linarith)
    exact divide?_of_dominated hdelta hdivisor hd he hepos (by linarith)
  · obtain ⟨e, he, hdivisor⟩ := h.high.add h.low (lt_limit_of_le_two (by
      rw [abs_of_nonneg (by linarith)]
      linarith))
    have hepos : 0 < e := by
      rw [← sub_neg_eq_add] at he
      exact he.pos_of_lt h.high.isOnGrid h.low.isOnGrid.neg (by linarith)
    exact divide?_of_dominated hdelta hdivisor hd he hepos (by linarith)

theorem exists_hueSaturation (h : IsSpread r g b high low red green blue top bottom) :
    ∃ hue s, hueSaturation? r g b high low = .ok (hue, s) ∧ Within 4 hue ∧ Within 1 s := by
  have hnonneg := h.nonneg
  have hone := h.le_one
  have hle := h.red_mem.1.trans h.red_mem.2
  obtain ⟨d, hd, hdelta⟩ := h.high.sub h.low (lt_limit_of_le_two (by
    rw [abs_of_nonneg (by linarith)]
    linarith))
  have hzero : Within 0 (0 : Float) := within_ofNat (n := 0) (by decide) (by decide)
  unfold hueSaturation?
  simp only
  rcases hle.eq_or_lt with heq | hlt
  · -- a gray color
    have hgray : d = 0 := by
      rw [heq, sub_self] at hd
      exact hd.eq_of_isOnGrid denotes_zero.isOnGrid
    have hbeq : (high - low == 0) = true := (hdelta.beq_iff denotes_zero).mpr hgray
    rw [if_pos hbeq]
    exact ⟨0, 0, rfl, hzero.mono (by decide), hzero.mono (by decide)⟩
  · have hpos := hd.pos_of_lt h.high.isOnGrid h.low.isOnGrid hlt
    have hbeq : ¬ (high - low == 0) = true := by
      rw [hdelta.beq_iff denotes_zero]
      exact hpos.ne'
    rw [if_neg hbeq]
    rcases h.exists_saturation hdelta hd hlt ((high + low) / 2 > 0.5) with ⟨s, hs, hs'⟩
    rcases h.exists_hueSextant hdelta hd hpos with ⟨z, hz, hz'⟩
    refine ⟨z, s, ?_, hz', hs'⟩
    by_cases hlight : (high + low) / 2 > 0.5
    · rw [if_pos hlight] at hs ⊢
      simp only [hs, hz, bind, Except.bind]
      rfl
    · rw [if_neg hlight] at hs ⊢
      simp only [hs, hz, bind, Except.bind]
      rfl

end IsSpread

theorem Rgb.IsInRange.exists_toHsl {c : Rgb} (h : c.IsInRange) : ∃ hsl, c.toHsl? = .ok hsl := by
  have hbyte : 0 < 255 := by decide
  rcases quotient?_of_le hbyte h.r.1 h.r.2 with ⟨r, hr, red, hred, hred'⟩
  rcases quotient?_of_le hbyte h.g.1 h.g.2 with ⟨g, hg, green, hgreen, hgreen'⟩
  rcases quotient?_of_le hbyte h.b.1 h.b.2 with ⟨b, hb, blue, hblue, hblue'⟩
  have hspread := IsSpread.of_denotes hred hgreen hblue hred' hgreen' hblue'
  unfold Rgb.toHsl?
  simp only [hr, hg, hb, bind, Except.bind]
  generalize larger (larger r g) b = high at hspread ⊢
  generalize smaller (smaller r g) b = low at hspread ⊢
  rcases hspread.exists_hueSaturation with ⟨hue, s, hhue, hhue', hs⟩
  have hfraction : ∀ {x : Float} {q : ℚ}, Denotes x q → 0 ≤ q → q ≤ 1 → Within 0 x := by
    intro x q hx hnonneg hle
    exact IsFraction.within ⟨q, hx, hnonneg, hle⟩
  have hnonneg := hspread.nonneg
  have hle := hspread.red_mem.1.trans hspread.red_mem.2
  have hone := hspread.le_one
  have hhigh : Within 0 high := hfraction hspread.high (hnonneg.trans hle) hone
  have hlow : Within 0 low := hfraction hspread.low hnonneg (hle.trans hone)
  have htwo : Denotes (2 : Float) 2 := denotes_ofNat (n := 2) (by decide)
  have hsixty : Within 6 (60 : Float) := within_ofNat (n := 60) (by decide) (by decide)
  have hhundred : Within 7 (100 : Float) := within_ofNat (n := 100) (by decide) (by decide)
  rcases roundHalfUp?_of_within (hhue'.mul hsixty (by decide)) with ⟨degrees, hdegrees, _⟩
  rcases roundHalfUp?_of_within (hs.mul hhundred (by decide)) with ⟨saturation, hsaturation, _⟩
  obtain ⟨lightness, hlightness, _⟩ := roundHalfUp?_of_within
    (((hhigh.add hlow (by decide)).div htwo (by norm_num) (by decide)).mul hhundred (by decide))
  rw [hhue]
  simp only [hdegrees, hsaturation, hlightness]
  exact ⟨_, rfl⟩

end DesignTokens
