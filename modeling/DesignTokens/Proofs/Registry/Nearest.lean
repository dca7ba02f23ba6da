import DesignTokens.Proofs.Registry.Query
import DesignTokens.Proofs.Token.Nearest

/-!
# Questions for the closest color

A loaded registry answers the question for the closest color of a value by the rule for
colors. The answer does not get lost or change when less is asked for.
-/

namespace DesignTokens
namespace Registry

open Rgb (squaredDistance)
open Color (exists_parse_of_readsAs readsAs)

variable {s s' : Session} {c : Catalog} {value : Text} {options : QueryOptions}
  {threshold : Threshold} {color : Color}

theorem closestColor_of_colorMatch? {found : Option (Token × Float)}
    (hc : s.registry.catalog = some c) (ht : Registry.threshold options s = .ok threshold s')
    (hparse : Color.parse value = .ok color) (hgenuine : color.isPlaceholder = false)
    (h : c.colorMatch? color threshold.value options.exact = .ok found) :
    closestColor value options s = .ok (found.map fun m => ⟨m.1, m.2, value⟩) s' := by
  have hfound : c.closestColor? value threshold.value options.exact =
      .ok (found.map fun m => ⟨m.1, m.2, value⟩) := by
    unfold Catalog.closestColor?
    rw [hparse]
    dsimp only
    rw [hgenuine, h]
    rfl
  unfold closestColor
  rw [Action.bind_run (loaded_run hc), Action.bind_run ht, hfound]
  rfl

/--
For colors in the cube of channels the token is selected by the rule: the first one of the
same form, or else, if near colors are allowed, the first one at the least squared distance
if it is as sure as the threshold. A token that is found is at the least distance of all, and
a lower threshold or near colors that are allowed find the same.
-/
theorem closestColor_selects (hs : s.IsReached) (hc : s.registry.catalog = some c)
    (hcube : ∀ u ∈ c.swatches, u.2.rgb.IsInCube) (hparse : Color.parse value = .ok color)
    (hgenuine : color.isPlaceholder = false) (hcolor : color.rgb.IsInCube)
    (ht : Registry.threshold options s = .ok threshold s') :
    ∃ found,
      closestColor value options s = .ok (found.map fun m => ⟨m.1, m.2, value⟩) s' ∧
        c.Selects color threshold.value options.exact found ∧
        ∀ m, found = some m →
          (∃ u ∈ c.swatches, u.1 = m.1 ∧ ∀ w ∈ c.swatches,
              squaredDistance u.2.rgb color.rgb ≤ squaredDistance w.2.rgb color.rgb) ∧
            ∀ (options' : QueryOptions) (threshold' : Threshold) (s'' : Session),
              Registry.threshold options' s = .ok threshold' s'' →
                threshold'.value ≤ threshold.value →
                (options'.exact = true → options.exact = true) →
                  closestColor value options' s = .ok (some ⟨m.1, m.2, value⟩) s'' := by
  have hforms : ∀ u ∈ c.swatches, u.2.rgb.hex? = .ok u.2.hex := by
    rcases exists_stylesheet hs hc with ⟨normalize, css, rfl⟩
    intro u hu
    exact Catalog.hex?_of_mem_swatches hu
  have hform := (Color.isFormed_of_parse hparse).hex
  rcases Catalog.exists_selects hcube hcolor threshold.value options.exact with
    ⟨found, hfound, hselects⟩
  refine ⟨found, closestColor_of_colorMatch? hc ht hparse hgenuine hfound, hselects, ?_⟩
  intro m hm
  rw [hm] at hfound hselects
  refine ⟨hselects.exists_le hcube hforms hcolor hform, ?_⟩
  intro options' threshold' s'' ht' hle hexact
  have hfound' := Catalog.colorMatch?_of_le hcube hcolor hle hexact hfound
  exact closestColor_of_colorMatch? hc ht' hparse hgenuine hfound'

/-- Two colors at the least distance of `#fe0000`, the first of them declared twice. -/
def shadesSheet : Text :=
  [":root\x7b", "--color-blue:#0000ff;", "--color-rose:#fc0a0a;", "--color-red:#ff0000;",
    "--color-crimson:#ff0000;", "--color-scarlet:#fd0000\x7d"].flatMap String.toList

theorem closestColor_selects_nearlyRed :
    ∃ s c color m,
      s = Session.opened shadesSheet ∧ s.registry.catalog = some c ∧
        c.swatches.map (fun u => (u.2.rgb.r, u.2.rgb.g, u.2.rgb.b)) =
          [(0, 0, 255), (252, 10, 10), (255, 0, 0), (255, 0, 0), (253, 0, 0)] ∧
        Color.parse "#fe0000".toList = .ok color ∧
        closestColor "#fe0000".toList ⟨some .standard, none, false⟩ s =
          .ok (some ⟨m.1, m.2, "#fe0000".toList⟩) s ∧
        m.1.variableName = "--color-red".toList ∧
        c.Selects color Threshold.standard.value false (some m) := by
  have hread : readsAs "#fe0000".toList "#fe0000".toList = true := by decide +kernel
  rcases exists_parse_of_readsAs hread with ⟨color, hparse, hgenuine, _⟩
  have hhue : color.format ≠ some .hsl := by
    have hfamily : ColorFormat.ofText? "#fe0000".toList = some .hex := by decide
    rw [Color.format_of_parse hfamily hparse]
    decide
  have hc := Session.catalog_opened (show shadesSheet ≠ [] by decide)
  have hanswer : (((Catalog.ofTable true (Stylesheet.properties shadesSheet)).closestColor?
      "#fe0000".toList Threshold.standard.value false).toOption.join.map
        fun m => m.token.variableName) = some "--color-red".toList := by
    decide +kernel
  have hchannels : (Catalog.ofTable true (Stylesheet.properties shadesSheet)).swatches.map
      (fun u => (u.2.rgb.r, u.2.rgb.g, u.2.rgb.b)) =
        [(0, 0, 255), (252, 10, 10), (255, 0, 0), (255, 0, 0), (253, 0, 0)] := by
    decide +kernel
  generalize Catalog.ofTable true (Stylesheet.properties shadesSheet) = c at hc hanswer hchannels
  have hcube : ∀ u ∈ c.swatches, u.2.rgb.IsInCube := by
    intro u hu
    have hmem := List.mem_map_of_mem (f := fun u => (u.2.rgb.r, u.2.rgb.g, u.2.rgb.b)) hu
    rw [hchannels] at hmem
    simp only [List.mem_cons, List.not_mem_nil, or_false, Prod.mk.injEq] at hmem
    constructor <;> omega
  have ht : (⟨some .standard, none, false⟩ : QueryOptions).threshold = some .standard := rfl
  rcases closestColor_selects (Session.isReached_opened shadesSheet) hc hcube hparse hgenuine
      ((Color.isFormed_of_parse hparse).cube hhue) (threshold_run ht) with
    ⟨found, hrun, hselects, _⟩
  rcases Option.map_eq_some_iff.mp hanswer with ⟨answer, hfound, hname⟩
  have hclosest : c.closestColor? "#fe0000".toList Threshold.standard.value false =
      .ok (some answer) := by
    cases hresult : c.closestColor? "#fe0000".toList Threshold.standard.value false with
    | error fault =>
        rw [hresult] at hfound
        cases hfound
    | ok result =>
        rw [hresult] at hfound
        exact congrArg Except.ok hfound
  rw [closestColor_run hc ht hclosest] at hrun
  cases found with
  | none => cases hrun
  | some m =>
      cases hrun
      refine ⟨_, c, color, m, rfl, hc, hchannels, hparse, ?_, hname, hselects⟩
      exact closestColor_run hc ht hclosest

end Registry
end DesignTokens
