import DesignTokens.Finding.Basic
import DesignTokens.Proofs.Source.Window

/-!
# Findings in their source

A finding stands in a source if its place is a stretch of the source that is not empty
and that is the value of the finding.
-/

namespace DesignTokens

/-- A finding stands in a source and belongs to a category that is asked for. -/
structure Finding.StandsIn (source : Text) (options : ScanOptions) (f : Finding) : Prop where
  start : 0 ≤ f.location.start
  lt : f.location.start < f.location.stop
  stop : f.location.stop ≤ source.length
  value : f.value = Source.stretch source f.location.start f.location.stop
  category : f.category ∈ options.categories

namespace Source

theorem place_natCast {source : Text} {offset : Nat} (h : offset ≤ source.length) :
    place source offset = offset := by
  unfold place
  rw [if_neg (by omega), Int.toNat_natCast, Nat.min_eq_left h]

theorem charAt?_natCast (source : Text) (offset : Nat) :
    charAt? source (offset : Int) = source[offset]? := by
  rw [charAt?, if_pos (Int.natCast_nonneg offset), Int.toNat_natCast]

theorem HasAt.stretch {source t : Text} {offset : Nat} (h : HasAt source offset t) (ht : t ≠ []) :
    Source.stretch source offset (offset + t.length : Nat) = t := by
  have hle := h.le_length ht
  rw [Source.stretch, place_natCast (by omega), place_natCast hle, h.slice]

end Source

section Site

variable {site : Site} {scope : Scope} {start : Nat} {category : Category} {property t : Text}
  {path : List Text} {details : Details}

theorem Site.finding_standsIn (hat : Source.HasAt site.source start t) (ht : t ≠ [])
    (hcategory : category ∈ site.options.categories) :
    (site.finding scope start (start + t.length) category property path details).StandsIn
      site.source site.options := by
  have hpos := List.length_pos_iff.mpr ht
  have hle := hat.le_length ht
  constructor
  · exact Int.natCast_nonneg start
  · exact Int.ofNat_lt.mpr (Nat.lt_add_of_pos_right hpos)
  · exact Int.ofNat_le.mpr hle
  · exact hat.slice.trans (hat.stretch ht).symm
  · exact hcategory

end Site
end DesignTokens
