import DesignTokens.Proofs.Color.Hue
import DesignTokens.Proofs.Registry.Nearest
import DesignTokens.Proofs.Registry.Search

/-!
# How sure matches are

A match is as sure as one minus the distance of two colors in units of the diagonal. The
diagonal is rounded down, and the distance of opposite corners of the cube is a little more
than one such unit. So every other pair of colors is sure by a fraction, and opposite corners
by a number below zero: they are no match even for the least threshold.
-/

namespace DesignTokens

open Binary
open Color (IsFinite exists_parse_of_readsAs readsAs)

namespace Rgb

/-!
## Opposite corners
-/

def AreOppositeEnds (m n : Int) : Prop :=
  m = 0 ∧ n = 255 ∨ m = 255 ∧ n = 0

/-- Two colors at opposite corners of the cube of channels. -/
structure AreOpposite (c d : Rgb) : Prop where
  r : AreOppositeEnds c.r d.r
  g : AreOppositeEnds c.g d.g
  b : AreOppositeEnds c.b d.b

instance (m n : Int) : Decidable (AreOppositeEnds m n) :=
  inferInstanceAs (Decidable (_ ∨ _))

instance (c d : Rgb) : Decidable (AreOpposite c d) :=
  decidable_of_iff
    (AreOppositeEnds c.r d.r ∧ AreOppositeEnds c.g d.g ∧ AreOppositeEnds c.b d.b)
    ⟨fun h => ⟨h.1, h.2.1, h.2.2⟩, fun h => ⟨h.r, h.g, h.b⟩⟩

theorem areOppositeEnds_of_square {m n : Int} (hm : 0 ≤ m ∧ m ≤ 255) (hn : 0 ≤ n ∧ n ≤ 255)
    (h : 255 ^ 2 ≤ (m - n) ^ 2) : AreOppositeEnds m n := by
  unfold AreOppositeEnds
  have habs : |(255 : Int)| ≤ |m - n| := sq_le_sq.mp h
  rw [abs_of_pos (by decide), le_abs] at habs
  omega

theorem square_of_areOppositeEnds {m n : Int} (h : AreOppositeEnds m n) :
    (m - n) ^ 2 = 255 ^ 2 := by
  rcases h with ⟨rfl, rfl⟩ | ⟨rfl, rfl⟩ <;> rfl

section Cube

variable {c d : Rgb}

/-- The largest distance in the cube is that of opposite corners. -/
theorem areOpposite_iff (hc : c.IsInCube) (hd : d.IsInCube) :
    AreOpposite c d ↔ squaredDistance c d = 195075 := by
  unfold squaredDistance
  constructor
  · intro h
    rw [square_of_areOppositeEnds h.r, square_of_areOppositeEnds h.g,
      square_of_areOppositeEnds h.b]
    rfl
  · intro h
    have hr := square_le hc.r hd.r
    have hg := square_le hc.g hd.g
    have hb := square_le hc.b hd.b
    constructor
    · exact areOppositeEnds_of_square hc.r hd.r (by omega)
    · exact areOppositeEnds_of_square hc.g hd.g (by omega)
    · exact areOppositeEnds_of_square hc.b hd.b (by omega)

/-!
## Confidence
-/

/-- The computed diagonal is below the true one, and above the next shorter distance. -/
theorem le_square_diagonal : (195074 : ℚ) ≤ (7769992811508829 * 2 ^ (-44 : ℤ)) ^ 2 := by
  norm_num

theorem isFraction_confidence (hc : c.IsInCube) (hd : d.IsInCube) (h : ¬ AreOpposite c d) :
    IsFraction (confidence (separation c.point d.point)) := by
  have hlt : squaredDistance c d ≤ 195074 := by
    have hle := squaredDistance_le hc hd
    rw [areOpposite_iff hc hd] at h
    omega
  have hcast : ((squaredDistance c d : Int) : ℚ) ≤ 195074 := by exact_mod_cast hlt
  rcases exists_share hc hd with ⟨r, v, hr, hv, hdenotes⟩
  have hgrid : IsOnGrid (7769992811508829 * 2 ^ (-44 : ℤ)) := denotes_diagonal.isOnGrid
  have hroot : r ≤ 7769992811508829 * 2 ^ (-44 : ℤ) :=
    hr.le_of_le hgrid (by positivity) (hcast.trans (sq (_ : ℚ) ▸ le_square_diagonal))
  have hzero : IsOnGrid 0 := isOnGrid_intCast (n := 0) (by decide)
  have hone : IsOnGrid 1 := isOnGrid_intCast (n := 1) (by decide)
  have hv0 : 0 ≤ v := hv.nearest.ge_of_ge hzero (div_nonneg hv.nonneg (by positivity))
  have hv1 : v ≤ 1 := hv.nearest.le_of_le hone ((div_le_one (by positivity)).mpr hroot)
  rcases denotes_one.sub hdenotes (lt_limit_of_le_two (abs_le.mpr (by constructor <;> linarith)))
    with ⟨w, hw, hconfidence⟩
  exact ⟨w, hconfidence, hw.ge_of_ge hzero (by linarith), hw.le_of_le hone (by linarith)⟩

theorem confidence_lt_zero (hc : c.IsInCube) (hd : d.IsInCube) (h : AreOpposite c d) :
    confidence (separation c.point d.point) < 0 := by
  have hcorner : Denotes (Float.ofNat 195075) ((195075 : Int) : ℚ) := by
    exact_mod_cast denotes_ofNat (n := 195075) (by decide)
  have hsum := denotes_squareSum hc hd
  rw [(areOpposite_iff hc hd).mp h] at hsum
  rw [separation_eq, hsum.sqrt_eq hcorner (by norm_num)]
  decide +kernel

theorem confidence_lt_iff {x threshold : Float} (hc : c.IsInCube) (hd : d.IsInCube)
    (hx : c.distance? d = .ok x) (hzero : Denotes threshold 0) :
    confidence x < threshold ↔ AreOpposite c d := by
  rw [distance?_eq hc hd] at hx
  cases hx
  constructor
  · intro hlt
    by_contra hopposite
    rcases isFraction_confidence hc hd hopposite with ⟨a, ha, hnonneg, _⟩
    rw [ha.lt_iff hzero] at hlt
    exact hlt.not_ge hnonneg
  · intro hopposite
    have hneg := confidence_lt_zero hc hd hopposite
    rcases isFinite_confidence_of_distance? hc hd (distance?_eq hc hd) with ⟨a, ha⟩
    rw [ha.lt_iff denotes_zero] at hneg
    rwa [ha.lt_iff hzero]

theorem isFraction_of_not_lt {x : Float} (hc : c.IsInCube) (hd : d.IsInCube)
    (hx : c.distance? d = .ok x) {threshold : Threshold}
    (h : ¬ confidence x < threshold.value) : IsFraction (confidence x) := by
  rcases threshold.exists_denotes with ⟨b, hb⟩
  have hnonneg : 0 ≤ b := (denotes_zero.le_iff hb).mp threshold.nonneg
  by_cases hopposite : AreOpposite c d
  · have hneg := (confidence_lt_iff hc hd hx denotes_zero).mpr hopposite
    rcases isFinite_confidence_of_distance? hc hd hx with ⟨a, ha⟩
    rw [ha.lt_iff denotes_zero] at hneg
    rw [ha.lt_iff hb] at h
    exact absurd (hneg.trans_le hnonneg) h
  · rw [distance?_eq hc hd] at hx
    cases hx
    exact isFraction_confidence hc hd hopposite

end Cube

end Rgb

def Threshold.zero : Threshold where
  value := 0
  nonneg := by decide +kernel
  le_one := by decide +kernel

/-!
## Tokens
-/

namespace Catalog

open Rgb (AreOpposite confidence)

variable {normalize : Bool} {table : Table Text} {c : Catalog} {color : Color}

theorem isInCube_of_mem_swatches {u : Token × Swatch}
    (h : u ∈ (ofTable normalize table).swatches) : u.2.rgb.IsInCube := by
  rcases exists_parse_of_mem_swatches h with ⟨_, color, hparse, hrgb, _⟩
  rw [hrgb]
  exact Color.isInCube_of_parse hparse

theorem swatches_ne_nil (h : c.ofCategory .color ≠ []) : c.swatches ≠ [] := by
  rcases List.exists_mem_of_ne_nil _ h with ⟨t, ht⟩
  rcases List.mem_filter.mp ht with ⟨hmem, hcategory⟩
  have hcolor := of_decide_eq_true hcategory
  unfold Token.category at hcolor
  split at hcolor
  · rename_i declared swatch hvalue
    have hswatch : t.swatch? = some swatch := by
      unfold Token.swatch?
      rw [hvalue]
    apply List.ne_nil_of_mem (a := (t, swatch))
    exact List.mem_filterMap.mpr ⟨t, hmem, by rw [hswatch]; rfl⟩
  all_goals cases hcolor

theorem Selects.isFraction {threshold : Threshold} {exact : Bool} {m : Token × Float}
    (h : c.Selects color threshold.value exact (some m))
    (hcube : ∀ u ∈ c.swatches, u.2.rgb.IsInCube) (hcolor : color.rgb.IsInCube) :
    IsFraction m.2 := by
  cases h with
  | same hsplit hsame hfirst => exact ⟨1, denotes_one, by norm_num, le_rfl⟩
  | @near before after u d hother hexact hsplit hnearest hd hsure =>
      exact Rgb.isFraction_of_not_lt (hcube u (by simp [hsplit])) hcolor hd hsure

/-- With the least threshold there is a token, unless every token is at the opposite corner. -/
theorem Selects.eq_none_iff {threshold : Float} {found : Option (Token × Float)}
    (h : c.Selects color threshold false found) (hzero : Denotes threshold 0)
    (hne : c.swatches ≠ []) (hcube : ∀ u ∈ c.swatches, u.2.rgb.IsInCube)
    (hforms : ∀ u ∈ c.swatches, u.2.rgb.hex? = .ok u.2.hex) (hcolor : color.rgb.IsInCube)
    (hform : color.rgb.hex? = .ok color.hex) :
    found = none ↔ ∀ u ∈ c.swatches, AreOpposite u.2.rgb color.rgb := by
  cases h with
  | @same before after u hsplit hsame hfirst =>
      have hmem : u ∈ c.swatches := by simp [hsplit]
      refine iff_of_false nofun ?_
      intro hall
      have hopposite := (Rgb.areOpposite_iff (hcube u hmem) hcolor).mp (hall u hmem)
      rw [Rgb.squaredDistance_eq_zero (hcube u hmem) hcolor (hforms u hmem) (hsame ▸ hform)]
        at hopposite
      cases hopposite
  | refused hother hexact => cases hexact
  | empty hempty => exact absurd hempty hne
  | @near before after u d hother hexact hsplit hnearest hd hsure =>
      have hmem : u ∈ c.swatches := by simp [hsplit]
      rw [Rgb.confidence_lt_iff (hcube u hmem) hcolor hd hzero] at hsure
      exact iff_of_false nofun fun hall => hsure (hall u hmem)
  | @far before after u d hother hexact hsplit hnearest hd hfar =>
      have hmem : u ∈ c.swatches := by simp [hsplit]
      refine iff_of_true rfl ?_
      -- the nearest token is at the largest distance, and so are all others
      intro w hw
      have hu := hcube u hmem
      rw [Rgb.confidence_lt_iff hu hcolor hd hzero, Rgb.areOpposite_iff hu hcolor] at hfar
      rw [Rgb.areOpposite_iff (hcube w hw) hcolor]
      have hmax := Rgb.squaredDistance_le (hcube w hw) hcolor
      rw [hsplit] at hw
      have hleast := hnearest.le hw
      omega

end Catalog

/-!
## Answers
-/

namespace Registry

open Rgb (AreOpposite)

variable {s s' : Session} {c : Catalog} {value : Text} {options : QueryOptions}

theorem exists_of_closestColor {found : Option TokenMatch} (hc : s.registry.catalog = some c)
    (h : closestColor value options s = .ok found s') :
    ∃ threshold : Threshold,
      c.closestColor? value threshold.value options.exact = .ok found := by
  unfold closestColor at h
  rw [Action.bind_run (loaded_run hc)] at h
  cases ht : threshold options s with
  | error fault s₁ =>
      rw [Action.bind_error _ ht] at h
      cases h
  | ok t s₁ =>
      rw [Action.bind_run ht] at h
      cases hfound : c.closestColor? value t.value options.exact with
      | error fault =>
          rw [hfound] at h
          cases h
      | ok found' =>
          rw [hfound] at h
          cases h
          exact ⟨t, hfound⟩

theorem isFraction_of_closestColor? {normalize exact : Bool} {table : Table Text}
    {threshold : Threshold} {m : TokenMatch}
    (h : (Catalog.ofTable normalize table).closestColor? value threshold.value exact =
      .ok (some m)) : IsFraction m.confidence := by
  unfold Catalog.closestColor? at h
  split at h
  · cases h
  · cases h
  · rename_i color hparse
    split at h
    · cases h
    · have hcolor := Color.isInCube_of_parse hparse
      have hcube : ∀ u ∈ (Catalog.ofTable normalize table).swatches, u.2.rgb.IsInCube :=
        fun u hu => Catalog.isInCube_of_mem_swatches hu
      rcases Catalog.exists_selects hcube hcolor threshold.value exact with
        ⟨found, hfound, hselects⟩
      rw [hfound] at h
      cases found with
      | none => cases h
      | some u =>
          cases h
          exact hselects.isFraction hcube hcolor

section Table

variable {normalize : Bool} {table : Table Text} {m : TokenMatch}

theorem isFraction_of_closestColor
    (hc : s.registry.catalog = some (Catalog.ofTable normalize table))
    (h : closestColor value options s = .ok (some m) s') : IsFraction m.confidence := by
  rcases exists_of_closestColor hc h with ⟨threshold, hfound⟩
  exact isFraction_of_closestColor? hfound

theorem isFraction_of_matchIn {category : Category}
    (hc : s.registry.catalog = some (Catalog.ofTable normalize table))
    (h : matchIn value options category s = .ok (some m) s') : IsFraction m.confidence := by
  by_cases hcolor : category = .color
  · subst hcolor
    cases hliteral : Color.isLiteral value with
    | false =>
        rw [matchIn_color_of_not_isLiteral hliteral] at h
        cases h
    | true =>
        rw [matchIn_color_of_isLiteral hliteral] at h
        exact isFraction_of_closestColor hc h
  · rw [matchIn_text_run hc hcolor] at h
    injection h with hfound
    rw [confidence_of_sameText? hfound]
    exact ⟨1, denotes_one, by norm_num, le_rfl⟩

theorem isFraction_of_firstMatch {categories : List Category}
    (hc : s.registry.catalog = some (Catalog.ofTable normalize table))
    (h : firstMatch value options categories s = .ok (some m) s') : IsFraction m.confidence := by
  induction categories generalizing s with
  | nil => cases h
  | cons category rest ih =>
      cases hmatch : matchIn value options category s with
      | error fault s₁ =>
          rw [firstMatch, Action.bind_error _ hmatch] at h
          cases h
      | ok found s₁ =>
          cases found with
          | some m' =>
              rw [firstMatch_of_some hmatch] at h
              cases h
              exact isFraction_of_matchIn hc hmatch
          | none =>
              rw [firstMatch_of_none hmatch] at h
              exact ih (catalog_matchIn hc hmatch) h

end Table

/--
Every match is sure by a number from 0 to 1. With the threshold zero a color has a match if
there are tokens of colors, unless all of these are at the opposite corner of the cube.
-/
theorem confidence_isFraction (hs : s.IsReached) :
    (∀ value options m s', closestColor value options s = .ok (some m) s' →
      IsFraction m.confidence) ∧
    (∀ value category options m s', bestMatch value category options s = .ok (some m) s' →
      IsFraction m.confidence) ∧
    ∀ (c : Catalog) (value : Text) (color : Color) (options : QueryOptions)
      (threshold : Threshold),
        s.registry.catalog = some c → c.ofCategory .color ≠ [] →
          Color.parse value = .ok color → color.isPlaceholder = false →
          options.threshold = some threshold → (threshold.value == 0) = true →
          options.exact = false →
            ∃ found, closestColor value options s = .ok found s ∧
              (found = none ↔ ∀ u ∈ c.swatches, AreOpposite u.2.rgb color.rgb) := by
  refine ⟨?_, ?_, ?_⟩
  · intro value options m s' h
    rcases exists_catalog h with ⟨c, hc⟩
    rcases exists_stylesheet hs hc with ⟨normalize, css, rfl⟩
    exact isFraction_of_closestColor hc h
  · intro value category options m s' h
    rcases exists_catalog h with ⟨c, hc⟩
    rcases exists_stylesheet hs hc with ⟨normalize, css, rfl⟩
    rw [bestMatch_run hc] at h
    exact isFraction_of_firstMatch hc h
  · intro c value color options threshold hc htokens hparse hgenuine ht hvalue hexact
    rcases exists_stylesheet hs hc with ⟨normalize, css, rfl⟩
    have hcolor := Color.isInCube_of_parse hparse
    have hform := (Color.isFormed_of_parse hparse).hex
    have hzero : Denotes threshold.value 0 := by
      rcases threshold.exists_denotes with ⟨a, ha⟩
      rwa [(ha.beq_iff denotes_zero).mp hvalue] at ha
    rcases Catalog.exists_selects (fun u hu => Catalog.isInCube_of_mem_swatches hu) hcolor
      threshold.value options.exact with ⟨found, hfound, hselects⟩
    refine ⟨_, closestColor_of_colorMatch? hc (threshold_run ht) hparse hgenuine hfound, ?_⟩
    rw [Option.map_eq_none_iff]
    rw [hexact] at hselects
    exact hselects.eq_none_iff hzero (Catalog.swatches_ne_nil htokens)
      (fun u hu => Catalog.isInCube_of_mem_swatches hu) (fun u hu => Catalog.hex?_of_mem_swatches hu)
      hcolor hform

def whiteSheet : Text :=
  ":root \x7b --color-paper: #ffffff; \x7d".toList

theorem confidence_isFraction_blackOnWhite :
    ∃ s, s = Session.opened whiteSheet ∧
      closestColor "#000000".toList ⟨some .zero, none, false⟩ s = .ok none s ∧
      ∃ m, closestColor "#000001".toList ⟨some .zero, none, false⟩ s = .ok (some m) s := by
  have hc := Session.catalog_opened (show whiteSheet ≠ [] by decide)
  have htokens : (Catalog.ofTable true (Stylesheet.properties whiteSheet)).ofCategory .color ≠
      [] := by
    apply List.ne_nil_of_length_pos
    decide +kernel
  have hzero : (Threshold.zero.value == 0) = true := by decide +kernel
  have hanswers := (confidence_isFraction (Session.isReached_opened whiteSheet)).2.2
  refine ⟨_, rfl, ?_, ?_⟩
  · rcases exists_parse_of_readsAs (show readsAs "#000000".toList "#000000".toList = true by
      decide +kernel) with ⟨black, hparse, hgenuine, _⟩
    rcases hanswers _ _ black ⟨some .zero, none, false⟩ _ hc htokens hparse hgenuine rfl hzero rfl
      with ⟨found, hrun, hnone⟩
    have hopposite : (Color.parse "#000000".toList).toOption.all (fun color =>
        (Catalog.ofTable true (Stylesheet.properties whiteSheet)).swatches.all fun u =>
          AreOpposite u.2.rgb color.rgb) = true := by
      decide +kernel
    rw [hparse] at hopposite
    have hall := List.all_eq_true.mp hopposite
    rwa [hnone.mpr fun u hu => of_decide_eq_true (hall u hu)] at hrun
  · rcases exists_parse_of_readsAs (show readsAs "#000001".toList "#000001".toList = true by
      decide +kernel) with ⟨blue, hparse, hgenuine, _⟩
    rcases hanswers _ _ blue ⟨some .zero, none, false⟩ _ hc htokens hparse hgenuine rfl hzero rfl
      with ⟨found, hrun, hnone⟩
    have hopposite : (Color.parse "#000001".toList).toOption.any (fun color =>
        (Catalog.ofTable true (Stylesheet.properties whiteSheet)).swatches.any fun u =>
          ¬ AreOpposite u.2.rgb color.rgb) = true := by
      decide +kernel
    rw [hparse] at hopposite
    rcases List.any_eq_true.mp hopposite with ⟨u, hu, hother⟩
    rw [decide_eq_true_eq] at hother
    rcases Option.ne_none_iff_exists'.mp fun h => hother (hnone.mp h u hu) with ⟨m, rfl⟩
    exact ⟨m, hrun⟩

end Registry
end DesignTokens
