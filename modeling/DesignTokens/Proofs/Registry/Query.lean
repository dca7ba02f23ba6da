import DesignTokens.Proofs.Color.Canonical
import DesignTokens.Proofs.Registry.Matching
import DesignTokens.Proofs.Token.Sound

/-!
# Questions for colors

A loaded registry answers every question for a color, and soundly, unless the reading of
the color overflows. A color that the tokens have is found by the question for the closest one,
however it is written. The question for a value of any kind looks it up among the colors
only if it is a literal.
-/

namespace DesignTokens

namespace Session

def opened (css : Text) : Session :=
  (start ⟨none, none, true⟩ [] ⟨none, none⟩).afterAll [.load (.text css)]

theorem isReached_opened (css : Text) : (opened css).IsReached :=
  ⟨_, _, _, _, rfl⟩

theorem catalog_opened {css : Text} (h : css ≠ []) :
    (opened css).registry.catalog =
      some (Catalog.ofTable true (Stylesheet.properties css)) := by
  cases css with
  | nil => exact absurd rfl h
  | cons c css =>
      change (sessionOf (Registry.load _ _)).registry.catalog = _
      rw [Registry.load_of_sourceText rfl rfl]
      rfl

end Session

namespace Registry

open Binary
open Color (Overflows exists_parse_of_readsAs readsAs)

variable {s s' : Session} {c : Catalog} {value : Text} {options : QueryOptions}
  {threshold : Threshold}

theorem threshold_run (h : options.threshold = some threshold) :
    Registry.threshold options s = .ok threshold s := by
  unfold Registry.threshold
  rw [h]
  rfl

theorem bestMatch_of_matchIn {category : Category} {found : Option TokenMatch}
    (hc : s.registry.catalog = some c) (h : matchIn value options category s = .ok found s') :
    bestMatch value (some category.name) options s = .ok found s' := by
  rw [bestMatch_run hc, searched_name]
  cases found with
  | none => exact firstMatch_of_none h
  | some m => exact firstMatch_of_some h

theorem matchIn_color_of_isLiteral (hliteral : Color.isLiteral value = true) :
    matchIn value options .color s = closestColor value options s := by
  unfold matchIn
  rw [if_pos rfl, if_pos hliteral]

/-!
## Answers and faults
-/

theorem closestColor_run {found : Option TokenMatch} (hc : s.registry.catalog = some c)
    (ht : options.threshold = some threshold)
    (h : c.closestColor? value threshold.value options.exact = .ok found) :
    closestColor value options s = .ok found s := by
  unfold closestColor
  rw [Action.bind_run (loaded_run hc), Action.bind_run (threshold_run ht), h]
  rfl

theorem closestColor_fault {fault : ArithmeticFault} (hc : s.registry.catalog = some c)
    (ht : options.threshold = some threshold)
    (h : c.closestColor? value threshold.value options.exact = .error fault) :
    closestColor value options s = .error (.arithmetic fault) s := by
  unfold closestColor
  rw [Action.bind_run (loaded_run hc), Action.bind_run (threshold_run ht), h]
  rfl

theorem exists_closestColor (hs : s.IsReached) (hc : s.registry.catalog = some c)
    (ht : options.threshold = some threshold) (hflow : ¬ Overflows value) :
    ∃ found, closestColor value options s = .ok found s ∧
      ∀ m, found = some m → m.IsSound c threshold options.exact .color value := by
  -- the colors of the tokens come of literals, and are of moderate size for that reason
  rcases exists_stylesheet hs hc with ⟨normalize, css, rfl⟩
  rcases Catalog.exists_closestColor? hflow threshold.value options.exact with
    ⟨found, hfound, hmatch⟩
  refine ⟨found, closestColor_run hc ht hfound, ?_⟩
  intro m hm
  rcases hmatch m hm with ⟨hvalue, color, hparse, _, hcolorMatch⟩
  exact Catalog.isSound_of_isColorMatch hparse hvalue hcolorMatch

theorem exists_bestMatch (hs : s.IsReached) (hc : s.registry.catalog = some c)
    (ht : options.threshold = some threshold) (category : Category) (value : Text) :
    ∃ found, bestMatch value (some category.name) options s = .ok found s ∧
      ∀ m, found = some m → m.IsSound c threshold options.exact category value := by
  by_cases hcolor : category = .color
  · subst hcolor
    cases hliteral : Color.isLiteral value with
    | false =>
        refine ⟨none, bestMatch_of_matchIn hc (matchIn_color_of_not_isLiteral hliteral), ?_⟩
        intro m hm
        cases hm
    | true =>
        have hflow := Color.not_overflows_of_isLiteral hliteral
        rcases exists_closestColor hs hc ht hflow with ⟨found, hrun, hsound⟩
        rw [← matchIn_color_of_isLiteral hliteral] at hrun
        exact ⟨found, bestMatch_of_matchIn hc hrun, hsound⟩
  · rcases exists_stylesheet hs hc with ⟨normalize, css, rfl⟩
    refine ⟨_, bestMatch_of_matchIn hc (matchIn_text_run hc hcolor), ?_⟩
    intro m hm
    exact Catalog.isSound_of_sameText? threshold hcolor hm

theorem exists_arithmetic_iff :
    (∃ fault, Color.parse value = .error (.arithmetic fault)) ↔ Overflows value := by
  constructor
  · rintro ⟨fault, hparse⟩
    by_contra hflow
    rcases Color.exists_settles_parse hflow with ⟨_, hsettles⟩
    exact hsettles.ne_arithmetic fault hparse
  · intro hflow
    exact ⟨_, Color.parse_of_overflows hflow⟩

/--
Every text is read as a color or refused for what it says, and every question for a
color is answered, with one exception for both: a color of which a channel overflows.
-/
theorem closestColor_outcome (value : Text) :
    ((∃ fault, Color.parse value = .error (.arithmetic fault)) ↔ Overflows value) ∧
      ∀ (s : Session) (c : Catalog) (options : QueryOptions) (threshold : Threshold),
        s.IsReached → s.registry.catalog = some c → options.threshold = some threshold →
          (Overflows value →
            closestColor value options s = .error (.arithmetic .infiniteToInteger) s) ∧
          (¬ Overflows value →
            ∃ found, closestColor value options s = .ok found s ∧
              ∀ m, found = some m → m.IsSound c threshold options.exact .color value) := by
  refine ⟨exists_arithmetic_iff, ?_⟩
  intro s c options threshold hs hc ht
  constructor
  · intro hflow
    exact closestColor_fault hc ht (Catalog.closestColor?_of_overflows hflow _ _ _)
  · intro hflow
    exact exists_closestColor hs hc ht hflow

def excessiveRed : Text :=
  "rgb(1e308%,0,0)".toList

theorem overflows_excessiveRed : Overflows excessiveRed := by
  have hnumber : Numeral.float? "1e308".toList = some (Float.ofBits 0x7FE1CCF385EBC8A0) := by
    decide +kernel
  have hdenotes : Denotes (Float.ofBits 0x7FE1CCF385EBC8A0)
      (5010420900022432 * 2 ^ (971 : ℤ)) :=
    denotes_of_parts 5010420900022432 971 (by decide +kernel) (by norm_num)
  have hbeyond : limit < 5010420900022432 * 2 ^ (971 : ℤ) * 255 := by
    have htwice := two_mul_limit_eq
    have hpos : (0 : ℚ) < 2 ^ (971 : ℤ) := by positivity
    generalize (2 : ℚ) ^ (971 : ℤ) = step at htwice hpos ⊢
    push_cast at htwice
    linarith
  refine ⟨by decide +kernel, "1e308%".toList, ['0'], ['0'], [], by decide +kernel, by decide, ?_⟩
  refine .here ⟨_, _, _, by decide +kernel, hnumber, hdenotes, ?_⟩
  rwa [abs_of_pos (by positivity)]

theorem closestColor_excessiveRed :
    ∃ s c,
      s = Session.opened ":root \x7b --spacing-sm: 4px; \x7d".toList ∧
        s.registry.catalog = some c ∧
        closestColor excessiveRed ⟨some .standard, none, false⟩ s =
          .error (.arithmetic .infiniteToInteger) s := by
  have hcatalog :
      (Session.opened ":root \x7b --spacing-sm: 4px; \x7d".toList).registry.catalog = some _ :=
    Session.catalog_opened (by decide)
  have ht : (⟨some .standard, none, false⟩ : QueryOptions).threshold = some .standard := rfl
  rcases (closestColor_outcome excessiveRed).2 _ _ _ _ (Session.isReached_opened _) hcatalog ht with
    ⟨hfault, _⟩
  exact ⟨_, _, rfl, hcatalog, hfault overflows_excessiveRed⟩

/-!
## Loading
-/

theorem exists_load (s : Session) {css : Text} (h : css ≠ []) :
    ∃ s', load (.text css) s = .ok () s' ∧ s'.registry.catalog.isSome = true ∧
      (s.registry.catalog = none → s'.registry = s.registry.loadedWith css) := by
  cases css with
  | nil => exact absurd rfl h
  | cons x css =>
      cases hc : s.registry.catalog with
      | some c =>
          refine ⟨s, load_of_loaded _ hc, Option.isSome_iff_exists.mpr ⟨c, hc⟩, ?_⟩
          intro hnone
          cases hnone
      | none =>
          have hsource : sourceText (.text (x :: css)) s = .ok (x :: css) s := rfl
          refine ⟨_, load_of_sourceText hc hsource, rfl, ?_⟩
          intro _
          rfl

/--
What is told to be a color literal is one for all who read it, and refused only for a
number that is none; so every stylesheet with a text can be loaded.
-/
theorem literals_agreed :
    (∀ t : Text, Color.isLiteral t = true → Color.IsAgreed t) ∧
      ∀ (s : Session) (css : Text), css ≠ [] →
        ∃ s', load (.text css) s = .ok () s' ∧ s'.registry.catalog.isSome = true ∧
          (s.registry.catalog = none → s'.registry = s.registry.loadedWith css) :=
  ⟨fun _ h => Color.isAgreed_of_isLiteral h, fun s _ h => exists_load s h⟩

theorem literals_agreed_twoPoints :
    (Color.IsAgreed "oklch(50% 0.1 1.2.3 / 40%)".toList ∧
        ∃ fault, Color.parse "oklch(50% 0.1 1.2.3 / 40%)".toList = .error fault) ∧
      ∃ s',
        load (.text ":root \x7b --ink: oklch(50% 0.1 1.2.3 / 40%); \x7d".toList)
            (Session.start ⟨none, none, true⟩ [] ⟨none, none⟩) = .ok () s' ∧
          s'.registry.catalog.isSome = true := by
  have hliteral : Color.isLiteral "oklch(50% 0.1 1.2.3 / 40%)".toList = true := by decide +kernel
  have hagreed := literals_agreed.1 _ hliteral
  have hload := literals_agreed.2 (Session.start ⟨none, none, true⟩ [] ⟨none, none⟩)
    ":root \x7b --ink: oklch(50% 0.1 1.2.3 / 40%); \x7d".toList (by decide)
  rcases hload with ⟨s', hrun, hloaded, -⟩
  refine ⟨⟨hagreed, ?_⟩, s', hrun, hloaded⟩
  rcases hagreed.family with ⟨family, hfamily, hrefused⟩
  have hoklch : family = .oklch := by
    have hread : ColorFormat.ofText? "oklch(50% 0.1 1.2.3 / 40%)".toList = some .oklch := by
      decide +kernel
    rw [hread] at hfamily
    exact (Option.some.inj hfamily).symm
  have hmem : "1.2.3".toList ∈ Color.numerals "oklch(50% 0.1 1.2.3 / 40%)".toList := by
    decide +kernel
  refine hrefused.mpr ⟨by rw [hoklch]; decide, _, hmem, ?_⟩
  exact (hagreed.refused _ hmem).mpr (.inr (.inl (by decide)))

/-!
## Colors that are the same
-/

/-- Whether a text is a color of which some token has the hexadecimal form. -/
structure HasTwin (c : Catalog) (value : Text) (color : Color) : Prop where
  parsed : Color.parse value = .ok color
  genuine : color.isPlaceholder = false
  twin : ∃ t ∈ c.ofCategory .color, t.mark? = some color.hex

theorem HasTwin.exists_closest {color : Color} (h : HasTwin c value color) (threshold : Float)
    (exact : Bool) :
    ∃ u, (c.ofCategory .color).find? (fun u => u.mark? = some color.hex) = some u ∧
      c.closestColor? value threshold exact = .ok (some ⟨u, 1, value⟩) := by
  rcases h.twin with ⟨t, ht, hmark⟩
  have hfound : ((c.ofCategory .color).find? fun u => u.mark? = some color.hex).isSome = true := by
    rw [List.find?_isSome]
    exact ⟨t, ht, decide_eq_true hmark⟩
  rcases Option.isSome_iff_exists.mp hfound with ⟨u, hu⟩
  have hsame : c.sameColor? color.hex = some u := by
    rw [Catalog.sameColor?_eq, hu]
  exact ⟨u, hu, Catalog.closestColor?_of_sameColor? h.parsed h.genuine hsame threshold exact⟩

/--
The first token of the same color is certain for the question for the closest color. The
question for the best match returns it as well if the value is a literal, and no token
otherwise.
-/
theorem bestMatch_sameColor {color : Color} (hc : s.registry.catalog = some c)
    (ht : options.threshold = some threshold) (h : HasTwin c value color) :
    ∃ u, (c.ofCategory .color).find? (fun u => u.mark? = some color.hex) = some u ∧
      closestColor value options s = .ok (some ⟨u, 1, value⟩) s ∧
      bestMatch value (some Category.color.name) options s =
        .ok (if Color.isLiteral value then some ⟨u, 1, value⟩ else none) s := by
  rcases h.exists_closest threshold.value options.exact with ⟨u, hu, hfound⟩
  have hrun := closestColor_run hc ht hfound
  refine ⟨u, hu, hrun, ?_⟩
  cases hliteral : Color.isLiteral value with
  | true =>
      rw [← matchIn_color_of_isLiteral hliteral] at hrun
      exact bestMatch_of_matchIn hc hrun
  | false => exact bestMatch_of_matchIn hc (matchIn_color_of_not_isLiteral hliteral)

def redSheet : Text :=
  ":root \x7b --color-red: #ff0000; \x7d".toList

theorem exists_hasTwin_redSheet {value : Text} (h : readsAs value "#ff0000".toList = true) :
    ∃ color, HasTwin (Catalog.ofTable true (Stylesheet.properties redSheet)) value color := by
  have htable : ("--color-red".toList, "#ff0000".toList) ∈ Stylesheet.properties redSheet := by
    decide +kernel
  have hkind : Catalog.kind? ("--color-red".toList, "#ff0000".toList) = some .color := by
    decide +kernel
  have hdeclared : readsAs "#ff0000".toList "#ff0000".toList = true := by decide +kernel
  rcases exists_parse_of_readsAs hdeclared with ⟨red, hred, _, hredHex⟩
  rcases exists_parse_of_readsAs h with ⟨color, hparse, hgenuine, hhex⟩
  refine ⟨color, hparse, hgenuine, ?_⟩
  rw [hhex, ← hredHex]
  exact Catalog.exists_mem_of_kind? htable hkind hred

theorem bestMatch_sameColor_short :
    ∃ s c color u,
      s = Session.opened redSheet ∧ s.registry.catalog = some c ∧
        HasTwin c "#F00".toList color ∧
        bestMatch "#F00".toList (some Category.color.name) ⟨some .standard, none, true⟩ s =
          .ok (some ⟨u, 1, "#F00".toList⟩) s := by
  rcases exists_hasTwin_redSheet (show readsAs "#F00".toList _ = true by decide +kernel) with
    ⟨color, htwin⟩
  have hc := Session.catalog_opened (show redSheet ≠ [] by decide)
  have ht : (⟨some .standard, none, true⟩ : QueryOptions).threshold = some .standard := rfl
  rcases bestMatch_sameColor hc ht htwin with ⟨u, _, _, hrun⟩
  exact ⟨_, _, color, u, rfl, hc, htwin, hrun⟩

/-- Without commas the same color has the shape of a color and a token, and is no literal. -/
theorem not_bestMatch_blankSeparated :
    ∃ s c color,
      s = Session.opened redSheet ∧ s.registry.catalog = some c ∧
        Color.isShape "rgb(255 0 0)".toList = true ∧ HasTwin c "rgb(255 0 0)".toList color ∧
        bestMatch "rgb(255 0 0)".toList (some Category.color.name) ⟨some .standard, none, true⟩ s =
          .ok none s := by
  rcases exists_hasTwin_redSheet (show readsAs "rgb(255 0 0)".toList _ = true by decide +kernel) with
    ⟨color, htwin⟩
  have hc := Session.catalog_opened (show redSheet ≠ [] by decide)
  have hliteral : Color.isLiteral "rgb(255 0 0)".toList = false := by decide +kernel
  refine ⟨_, _, color, rfl, hc, by decide +kernel, htwin, ?_⟩
  exact bestMatch_of_matchIn hc (matchIn_color_of_not_isLiteral hliteral)

end Registry
end DesignTokens
