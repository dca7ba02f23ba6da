import DesignTokens.Proofs.Color.Selection
import DesignTokens.Proofs.Token.Sound

/-!
# The token for a color

The search by hexadecimal form and the search by distance run over the same list. The first
token of the same form comes before everything; without one the first nearest token is
taken if near colors are allowed and it is sure enough. So a lower threshold, or none but
exact matches no longer asked for, neither loses nor changes a match.
-/

namespace DesignTokens

open Binary
open Rgb (IsFirstNearest squaredDistance confidence)

theorem Threshold.lt_of_le {low high : Threshold} (hle : low.value ≤ high.value) {x : Float}
    (hx : Color.IsFinite x) (hlt : x < low.value) : x < high.value := by
  rcases hx with ⟨a, ha⟩
  rcases low.exists_denotes with ⟨b, hb⟩
  rcases high.exists_denotes with ⟨d, hd⟩
  rw [hb.le_iff hd] at hle
  rw [ha.lt_iff hb] at hlt
  rw [ha.lt_iff hd]
  exact hlt.trans_le hle

namespace Catalog

/-- Which token is selected for a color, by the rule that applies. -/
inductive Selects (c : Catalog) (color : Color) (threshold : Float) (exact : Bool) :
    Option (Token × Float) → Prop where
  /-- the first token of the same form, with certainty -/
  | same {before after : List (Token × Swatch)} {u : Token × Swatch}
      (hsplit : c.swatches = before ++ u :: after) (hsame : u.2.hex = color.hex)
      (hfirst : ∀ w ∈ before, w.2.hex ≠ color.hex) : Selects c color threshold exact (some (u.1, 1))
  /-- no token of the same form, where it has to be the same -/
  | refused (hother : ∀ w ∈ c.swatches, w.2.hex ≠ color.hex) (hexact : exact = true) :
      Selects c color threshold exact none
  /-- no token of a color at all -/
  | empty (hempty : c.swatches = []) : Selects c color threshold exact none
  /-- the first nearest token, which is as sure as the threshold -/
  | near {before after : List (Token × Swatch)} {u : Token × Swatch} {d : Float}
      (hother : ∀ w ∈ c.swatches, w.2.hex ≠ color.hex) (hexact : exact = false)
      (hsplit : c.swatches = before ++ u :: after)
      (hnearest : IsFirstNearest (fun w => w.2.rgb) color.rgb before u after)
      (hd : u.2.rgb.distance? color.rgb = .ok d) (hsure : ¬ confidence d < threshold) :
      Selects c color threshold exact (some (u.1, confidence d))
  /-- no token, since the first nearest one is less sure than the threshold -/
  | far {before after : List (Token × Swatch)} {u : Token × Swatch} {d : Float}
      (hother : ∀ w ∈ c.swatches, w.2.hex ≠ color.hex) (hexact : exact = false)
      (hsplit : c.swatches = before ++ u :: after)
      (hnearest : IsFirstNearest (fun w => w.2.rgb) color.rgb before u after)
      (hd : u.2.rgb.distance? color.rgb = .ok d) (hfar : confidence d < threshold) :
      Selects c color threshold exact none

variable {c : Catalog} {color : Color} {threshold : Float}

theorem exists_of_sameColor? {hex : Text} {t : Token} (h : c.sameColor? hex = some t) :
    ∃ before u after, c.swatches = before ++ u :: after ∧ u.1 = t ∧ u.2.hex = hex ∧
      ∀ w ∈ before, w.2.hex ≠ hex := by
  rcases Option.map_eq_some_iff.mp h with ⟨u, hu, ht⟩
  rcases List.find?_eq_some_iff_append.mp hu with ⟨hsame, before, after, hsplit, hfirst⟩
  refine ⟨before, u, after, hsplit, ht, of_decide_eq_true hsame, ?_⟩
  intro w hw
  have hother := hfirst w hw
  rwa [Bool.not_eq_true', decide_eq_false_iff_not] at hother

theorem ne_of_sameColor? {hex : Text} (h : c.sameColor? hex = none) :
    ∀ w ∈ c.swatches, w.2.hex ≠ hex := by
  intro w hw
  have hother := List.find?_eq_none.mp (Option.map_eq_none_iff.mp h) w hw
  rwa [decide_eq_true_eq] at hother

/-- The token that is found for a color in the cube is selected by one of the rules. -/
theorem exists_selects (hcube : ∀ u ∈ c.swatches, u.2.rgb.IsInCube)
    (hcolor : color.rgb.IsInCube) (threshold : Float) (exact : Bool) :
    ∃ found, c.colorMatch? color threshold exact = .ok found ∧
      c.Selects color threshold exact found := by
  unfold colorMatch?
  cases hsame : c.sameColor? color.hex with
  | some t =>
      rcases exists_of_sameColor? hsame with ⟨before, u, after, hsplit, rfl, hhex, hfirst⟩
      exact ⟨_, rfl, .same hsplit hhex hfirst⟩
  | none =>
      have hother := ne_of_sameColor? hsame
      cases exact with
      | true => exact ⟨none, rfl, .refused hother rfl⟩
      | false =>
          by_cases hempty : c.swatches = []
          · refine ⟨none, ?_, .empty hempty⟩
            simp only [Bool.false_eq_true, if_false]
            unfold nearestColor?
            rw [hempty]
            rfl
          · rcases Rgb.exists_closest_of_isInCube hcolor hcube hempty with
              ⟨before, u, after, d, hsplit, hnearest, hd, hclosest⟩
            have hat : c.swatches[before.length]? = some u := by
              rw [hsplit, List.getElem?_append_right le_rfl, Nat.sub_self, List.getElem?_cons_zero]
            simp only [Bool.false_eq_true, if_false]
            unfold nearestColor?
            rw [hclosest, Except.ok_bind]
            dsimp only
            by_cases hfar : confidence d < threshold
            · rw [if_pos hfar]
              exact ⟨none, rfl, .far hother rfl hsplit hnearest hd hfar⟩
            · rw [if_neg hfar, hat]
              exact ⟨_, rfl, .near hother rfl hsplit hnearest hd hfar⟩

/-- A lower threshold, or exact matches no longer asked for, keeps the token that is found. -/
theorem colorMatch?_of_le {low high : Threshold} {exact exact' : Bool} {m : Token × Float}
    (hcube : ∀ u ∈ c.swatches, u.2.rgb.IsInCube) (hcolor : color.rgb.IsInCube)
    (hle : low.value ≤ high.value) (hexact : exact' = true → exact = true)
    (h : c.colorMatch? color high.value exact = .ok (some m)) :
    c.colorMatch? color low.value exact' = .ok (some m) := by
  unfold colorMatch? at h ⊢
  cases hsame : c.sameColor? color.hex with
  | some t =>
      rw [hsame] at h
      exact h
  | none =>
      rw [hsame] at h
      cases exact with
      | true => cases h
      | false =>
          have hnear : exact' = false := by
            rw [← Bool.not_eq_true]
            intro htrue
            cases hexact htrue
          rw [hnear]
          simp only [Bool.false_eq_true, if_false] at h ⊢
          by_cases hempty : c.swatches = []
          · unfold nearestColor? at h
            rw [hempty] at h
            cases h
          · rcases Rgb.exists_closest_of_isInCube hcolor hcube hempty with
              ⟨before, u, after, d, hsplit, _, hd, hclosest⟩
            have hfinite : Color.IsFinite (confidence d) :=
              Rgb.isFinite_confidence_of_distance? (hcube u (by simp [hsplit])) hcolor hd
            unfold nearestColor? at h ⊢
            rw [hclosest, Except.ok_bind] at h ⊢
            dsimp only at h ⊢
            by_cases hfar : confidence d < high.value
            · rw [if_pos hfar] at h
              cases h
            · rw [if_neg hfar] at h
              rw [if_neg (mt (Threshold.lt_of_le hle hfinite) hfar)]
              exact h

theorem Selects.exists_le {exact : Bool} {m : Token × Float}
    (h : c.Selects color threshold exact (some m)) (hcube : ∀ u ∈ c.swatches, u.2.rgb.IsInCube)
    (hforms : ∀ u ∈ c.swatches, u.2.rgb.hex? = .ok u.2.hex) (hcolor : color.rgb.IsInCube)
    (hform : color.rgb.hex? = .ok color.hex) :
    ∃ u ∈ c.swatches, u.1 = m.1 ∧
      ∀ w ∈ c.swatches, squaredDistance u.2.rgb color.rgb ≤ squaredDistance w.2.rgb color.rgb := by
  cases h with
  | @same before after u hsplit hsame hfirst =>
      have hmem : u ∈ c.swatches := by simp [hsplit]
      refine ⟨u, hmem, rfl, ?_⟩
      intro w _
      rw [Rgb.squaredDistance_eq_zero (hcube u hmem) hcolor (hforms u hmem) (hsame ▸ hform)]
      exact Rgb.squaredDistance_nonneg w.2.rgb color.rgb
  | @near before after u d hother hexact hsplit hnearest hd hsure =>
      refine ⟨u, by simp [hsplit], rfl, ?_⟩
      intro w hw
      rw [hsplit] at hw
      exact hnearest.le hw

theorem hex?_of_mem_swatches {normalize : Bool} {table : Table Text} {u : Token × Swatch}
    (h : u ∈ (ofTable normalize table).swatches) : u.2.rgb.hex? = .ok u.2.hex := by
  rcases exists_parse_of_mem_swatches h with ⟨_, color, hparse, hrgb, hhex⟩
  rw [hrgb, hhex]
  exact (Color.isFormed_of_parse hparse).hex

end Catalog
end DesignTokens
