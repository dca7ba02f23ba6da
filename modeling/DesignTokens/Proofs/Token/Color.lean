import DesignTokens.Proofs.Color.Nearness
import DesignTokens.Proofs.Token.Lookup

/-!
# Matches of colors

The colors of the tokens come of literals, so that distances to them can be computed.
A value is matched with the first token of its own color, or else with a token that is
as sure as it was asked for; only a channel that overflows has no answer.
-/

namespace DesignTokens

open Binary
open Color (IsFinite Overflows)

namespace Catalog

/-!
## The colors of the tokens
-/

theorem exists_of_mem_swatches {c : Catalog} {s : Token × Swatch} (h : s ∈ c.swatches) :
    s.1 ∈ c.ofCategory .color ∧ s.1.swatch? = some s.2 := by
  rcases List.mem_filterMap.mp h with ⟨t, ht, hs⟩
  rcases Option.map_eq_some_iff.mp hs with ⟨swatch, hswatch, rfl⟩
  refine ⟨List.mem_filter.mpr ⟨ht, ?_⟩, hswatch⟩
  unfold Token.swatch? at hswatch
  unfold Token.category
  split at hswatch
  · rename_i hvalue
    rw [hvalue]
    rfl
  · cases hswatch

variable {normalize : Bool} {table : Table Text}

theorem exists_parse_of_mem_swatches {s : Token × Swatch}
    (h : s ∈ (ofTable normalize table).swatches) :
    ∃ text color, Color.parse text = .ok color ∧ s.2.rgb = color.rgb ∧ s.2.hex = color.hex := by
  rcases exists_of_mem_swatches h with ⟨hmem, hswatch⟩
  rcases List.mem_filter.mp hmem with ⟨htoken, hcategory⟩
  have hcolor : s.1.category = .color := of_decide_eq_true hcategory
  have hfont : s.1.category ≠ .typography := by
    rw [hcolor]
    decide
  rcases exists_entry_of_mem htoken hfont with ⟨entry, _, hentry⟩
  rcases exists_color_of_tokenFor? hentry hcolor with ⟨color, hparse, _, hmade, _⟩
  refine ⟨entry.2, color, hparse, ?_⟩
  rw [hswatch] at hmade
  rw [Option.some.inj hmade]
  cases normalize <;> exact ⟨rfl, rfl⟩

theorem isModerate_of_mem_swatches {s : Token × Swatch}
    (h : s ∈ (ofTable normalize table).swatches) : s.2.rgb.IsModerate := by
  rcases exists_parse_of_mem_swatches h with ⟨_, color, hparse, hrgb, _⟩
  rw [hrgb]
  exact Color.isModerate_of_parse hparse

theorem exists_mem_of_kind? {entry : Text × Text} {color : Color} (hmem : entry ∈ table)
    (hkind : kind? entry = some .color) (hparse : Color.parse entry.2 = .ok color) :
    ∃ t ∈ (ofTable normalize table).ofCategory .color, t.mark? = some color.hex := by
  have hmade : ∃ t, tokenFor? normalize entry = some t ∧ t.category = .color ∧
      t.mark? = some color.hex := by
    unfold tokenFor?
    rw [hkind, hparse]
    refine ⟨_, rfl, rfl, ?_⟩
    cases normalize <;> rfl
  rcases hmade with ⟨t, ht, hcategory, hmark⟩
  have htoken : t ∈ (ofTable normalize table).tokens := by
    rw [tokens_ofTable]
    exact List.mem_append_left _ (List.mem_filterMap.mpr ⟨entry, hmem, ht⟩)
  exact ⟨t, List.mem_filter.mpr ⟨htoken, decide_eq_true hcategory⟩, hmark⟩

/-!
## Matches
-/

/-- A token for a color: of this color and certain, or near enough where it may be near. -/
structure IsColorMatch (c : Catalog) (color : Color) (threshold : Float) (exact : Bool)
    (found : Token × Float) : Prop where
  mem : found.1 ∈ c.ofCategory .color
  sure : found.1.mark? = some color.hex ∧ found.2 = 1 ∨
    exact = false ∧ IsFinite found.2 ∧ ¬ found.2 < threshold

theorem sameColor?_spec {c : Catalog} {hex : Text} {t : Token} (h : c.sameColor? hex = some t) :
    t ∈ c.ofCategory .color ∧ t.mark? = some hex := by
  rw [sameColor?_eq] at h
  have hmark := List.find?_some h
  exact ⟨List.mem_of_find?_eq_some h, of_decide_eq_true hmark⟩

theorem exists_nearestColor? {color : Color} (hcolor : color.rgb.IsModerate) (threshold : Float) :
    ∃ found, (ofTable normalize table).nearestColor? color.rgb threshold = .ok found ∧
      ∀ m, found = some m → IsColorMatch (ofTable normalize table) color threshold false m := by
  have hswatches : ∀ c ∈ (ofTable normalize table).swatches.map fun s => s.2.rgb,
      c.IsModerate := by
    intro c hc
    rcases List.mem_map.mp hc with ⟨s, hs, rfl⟩
    exact isModerate_of_mem_swatches hs
  rcases Rgb.exists_closest hcolor hswatches with ⟨found, hfound, hsure⟩
  unfold nearestColor?
  rw [hfound, Except.ok_bind]
  cases found with
  | none =>
      refine ⟨none, rfl, ?_⟩
      intro m hm
      cases hm
  | some m =>
      rcases hsure m rfl with ⟨_, hfinite⟩
      dsimp only
      split
      · refine ⟨none, rfl, ?_⟩
        intro p hp
        cases hp
      · rename_i hnear
        refine ⟨_, rfl, ?_⟩
        intro p hp
        rcases Option.map_eq_some_iff.mp hp with ⟨s, hs, rfl⟩
        exact ⟨(exists_of_mem_swatches (List.mem_of_getElem? hs)).1, .inr ⟨rfl, hfinite, hnear⟩⟩

theorem exists_colorMatch? {color : Color} (hcolor : color.rgb.IsModerate) (threshold : Float)
    (exact : Bool) :
    ∃ found, (ofTable normalize table).colorMatch? color threshold exact = .ok found ∧
      ∀ m, found = some m → IsColorMatch (ofTable normalize table) color threshold exact m := by
  unfold colorMatch?
  split
  · rename_i t hsame
    refine ⟨some (t, 1), rfl, ?_⟩
    intro m hm
    cases hm
    exact ⟨(sameColor?_spec hsame).1, .inl ⟨(sameColor?_spec hsame).2, rfl⟩⟩
  · cases exact with
    | true =>
        refine ⟨none, rfl, ?_⟩
        intro m hm
        cases hm
    | false => exact exists_nearestColor? hcolor threshold

theorem closestColor?_of_overflows {value : Text} (h : Overflows value) (c : Catalog)
    (threshold : Float) (exact : Bool) :
    c.closestColor? value threshold exact = .error .infiniteToInteger := by
  unfold closestColor?
  rw [Color.parse_of_overflows h]

/-- Every value that does not overflow has an answer, and a match of it is one of its color. -/
theorem exists_closestColor? {value : Text} (h : ¬ Overflows value) (threshold : Float)
    (exact : Bool) :
    ∃ found, (ofTable normalize table).closestColor? value threshold exact = .ok found ∧
      ∀ m, found = some m → m.value = value ∧
        ∃ color, Color.parse value = .ok color ∧ color.isPlaceholder = false ∧
          IsColorMatch (ofTable normalize table) color threshold exact (m.token, m.confidence) := by
  rcases Color.exists_settles_parse h with ⟨_, hparse⟩
  unfold closestColor?
  cases hp : Color.parse value with
  | error fault =>
      cases fault with
      | arithmetic fault => exact absurd hp (hparse.ne_arithmetic fault)
      | _ =>
          refine ⟨none, rfl, ?_⟩
          intro m hm
          cases hm
  | ok color =>
      dsimp only
      split
      · refine ⟨none, rfl, ?_⟩
        intro m hm
        cases hm
      · rename_i hgenuine
        rcases exists_colorMatch? (Color.isModerate_of_parse hp) threshold exact with
          ⟨found, hfound, hmatch⟩
        rw [hfound]
        refine ⟨_, rfl, ?_⟩
        intro m hm
        rcases Option.map_eq_some_iff.mp hm with ⟨p, hp', rfl⟩
        exact ⟨rfl, color, rfl, Bool.not_eq_true _ ▸ hgenuine, hmatch p hp'⟩

end Catalog
end DesignTokens
